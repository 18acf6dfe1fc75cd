import InstanceRegistry.Typed
import InstanceRegistry.Proofs.Creation.Once

/-!
Typed access: what is put under a name, and what is found under it.

* `LeavesBound`: observers that leave a name as it is bound;
* `object?_of_ends_register`, `object?_of_ends_obtain`: a call that ends well leaves its object
  bound;
* `Stored`: a typed call for a name has put an object under a name, or has found it there;
* `Found`: the object is found under a name;
* `stored_found`: what is stored is found, unless the name stands for another one by then.
-/

namespace InstanceRegistry

variable {S : Setup} {caller : Caller S} {r : S.Index} {name key : Name} {kind : S.Kind}
  {o : S.Object} {w w' : World S}

lemma Object.expect_eq_ok_iff {object : S.Object} {description : String} :
    object.expect name kind description = .ok o ↔ object = o ∧ o.kind = kind := by
  unfold expect
  split
  · next hkind => simpa using fun h : object = o => h ▸ hkind
  · next hkind => simpa using fun h : object = o => h ▸ hkind

/-! ### Calls that end well -/

variable (caller r name) in
/-- An observer that is told that the name is bound leaves it as it is bound. -/
def LeavesBound : Prop :=
  ∀ o e w w', e = .registered name ∨ e = .created name →
    Ends caller (caller.observer o e) w () w' →
      (w'.registry r).object? name = (w.registry r).object? name

/-- A registration that ends with success leaves its object bound. -/
lemma object?_of_ends_register {outcome : Outcome} (hobs : LeavesBound caller r name)
    (h : Ends caller (Script.update r (.register name o)) w (.ok outcome) w') :
    (w'.registry r).object? name = some o := by
  let change := (w.registry r).register name o
  have hquiet : ∀ e, change.event = some e → ∀ o w w', Ends caller (caller.observer o e) w () w' →
      (w'.registry r).object? name = (w.registry r).object? name := fun e he o w w' =>
    hobs o e w w' (Or.inl (Registry.eq_registered_of_event_register he))
  have hrest : Reaches caller (report caller r change.event (.script (.done change.answer))
      Stack.bottom (w.carry r change)) (Config.start (.done (.ok outcome)) w') :=
    Reaches.to_done (Reaches.next _) h
  obtain ⟨d, ⟨w₁, rfl, hsame⟩, hd⟩ := (higherUntil_report hquiet _).exists_of_reaches_done hrest
  obtain ⟨hanswer, rfl⟩ := ends_done_iff.mp hd
  rw [hsame, World.registry_carry]
  exact Registry.object?_register hanswer

/-- A request that ends with an object leaves it bound. -/
lemma object?_of_ends_obtain {factory : S.Factory} (hobs : LeavesBound caller r name)
    (h : Ends caller (Script.obtain r name factory) w (.ok o) w') :
    (w'.registry r).object? name = some o := by
  let next : Except Error S.Object → Script S (Role.client.Result S (Except Error S.Object)) :=
    .done
  let below : Stack S (Except Error S.Object) .client := .bottom
  have hyields : HigherUntil caller below.depth (fun d => ∃ answer w₁,
      d = ⟨.client, .script (next answer), below, w₁⟩ ∧
        ∀ o, answer = .ok o → (w₁.registry r).object? name = some o)
      (step caller ⟨.client, .script (.demand r name factory next), below, w⟩) :=
    higherUntil_demand (fun o w w' => hobs o _ w w' (Or.inr rfl)) factory next w
  obtain ⟨d, ⟨answer, w₁, rfl, hbound⟩, hd⟩ :=
    hyields.exists_of_reaches_done (Reaches.to_done (Reaches.next _) h)
  obtain ⟨rfl, rfl⟩ := ends_done_iff.mp hd
  exact hbound o rfl

/-! ### What is stored and what is found -/

variable (caller r name kind w w') in
/-- A typed call for the name has ended well: it has put an object of the type under the key, or has
found it there. -/
inductive Stored : Name → S.Object → Prop
  | value {value : S.Value} {outcome : Outcome}
      (h : Ends caller (Script.registerValue r name value) w (.ok outcome) w')
      (hkind : S.kind value = kind) : Stored name (w.make value).2
  | object {o : S.Object} {outcome : Outcome}
      (h : Ends caller (Script.update r (.register name o)) w (.ok outcome) w')
      (hkind : o.kind = kind) : Stored name o
  | created {factory : S.Factory} {o : S.Object}
      (h : Ends caller (Script.obtainOf r name kind factory) w (.ok o) w') :
      Stored ((w.registry r).canonical name) o
  | product {product : Product S} {o : S.Object}
      (h : Ends caller (Script.obtainProduct r name product) w (.ok o) w')
      (hkind : product.kind = kind) : Stored name o

/-- The object of the type is found under the name. -/
structure Found (caller : Caller S) (r : S.Index) (name : Name) (kind : S.Kind) (o : S.Object)
    (w : World S) : Prop where
  contains : (w.registry r).containsCanonical name = true
  get : Ends caller (Script.get r name kind) w (.ok o) w

/-- A request by type ends with an object of that type. -/
lemma ends_expect {factory : S.Factory} {description : String}
    (h : Ends caller ((Script.obtain r key factory).bind fun
      | .ok object => .done (object.expect name kind description)
      | .error e => .done (.error e)) w (.ok o) w') :
    Ends caller (Script.obtain r key factory) w (.ok o) w' ∧ o.kind = kind := by
  obtain ⟨answer, w₁, hobtain, hrest⟩ := ends_bind_iff.mp h
  cases answer with
  | error e => cases (ends_done_iff.mp hrest).1
  | ok object =>
      obtain ⟨hexpect, rfl⟩ := ends_done_iff.mp hrest
      obtain ⟨rfl, hkind⟩ := Object.expect_eq_ok_iff.mp hexpect
      exact ⟨hobtain, hkind⟩

/-- What is stored is bound, and has the type. -/
lemma Stored.bound (hobs : LeavesBound caller r key) (h : Stored caller r name kind w w' key o) :
    (w'.registry r).object? key = some o ∧ o.kind = kind := by
  cases h with
  | value h hkind =>
      have hupdate : Ends caller (Script.update r (.register name (w.make _).2)) (w.make _).1
        (.ok _) w' := Reaches.to_done (Reaches.next _) h
      exact ⟨object?_of_ends_register hobs hupdate, hkind⟩
  | object h hkind => exact ⟨object?_of_ends_register hobs h, hkind⟩
  | created h =>
      obtain ⟨hobtain, hkind⟩ := ends_expect (Reaches.to_done (Reaches.next _) h)
      exact ⟨object?_of_ends_obtain hobs hobtain, hkind⟩
  | @product product _ h hkind =>
      unfold Script.obtainProduct at h
      split at h
      · obtain ⟨hobtain, hkind'⟩ := ends_expect h
        exact ⟨object?_of_ends_obtain hobs hobtain, hkind'.trans hkind⟩
      · cases (ends_done_iff.mp h).1

/-- A lookup by type of a name that stands for a bound one. -/
lemma ends_get_of_bound {object : S.Object}
    (hbound : (w.registry r).object? ((w.registry r).canonical name) = some object) :
    Ends caller (Script.get r name kind) w
      (object.expect ((w.registry r).canonical name) kind (S.description kind)) w :=
  Reaches.head rfl ((ends_lookup_answered (Registry.lookup_of_bound hbound true)).bind
    (Ends.done _ w))

/-- An object is found under a name if it has the type and what the name stands for is bound to
it. -/
lemma found_iff : Found caller r name kind o w ↔
    (w.registry r).object? ((w.registry r).canonical name) = some o ∧ o.kind = kind := by
  constructor
  · rintro ⟨hcontains, hget⟩
    obtain ⟨object, hbound⟩ := Option.isSome_iff_exists.mp
      (Registry.contains_iff_isSome.mp hcontains)
    obtain ⟨rfl, hkind⟩ := Object.expect_eq_ok_iff.mp ((ends_get_of_bound hbound).unique hget).1
    exact ⟨hbound, hkind⟩
  · rintro ⟨hbound, hkind⟩
    have hget : Ends caller (Script.get r name kind) w _ w := ends_get_of_bound hbound
    rw [Object.expect_eq_ok_iff.mpr ⟨rfl, hkind⟩] at hget
    exact ⟨Registry.contains_iff_isSome.mpr (hbound ▸ rfl), hget⟩

/-- **What is stored is found.** An object that is registered or created by type, or is the product
of a factory object, is bound to the name, or to what the name stood for when a creation by type
began. It is found under the name exactly if it is bound to what the name stands for afterwards, so
in any case if that is where it has been put. -/
theorem stored_found (hobs : LeavesBound caller r key)
    (h : Stored caller r name kind w w' key o) :
    (w'.registry r).object? key = some o ∧
      (Found caller r name kind o w' ↔
        (w'.registry r).object? ((w'.registry r).canonical name) = some o) ∧
      ((w'.registry r).canonical name = key → Found caller r name kind o w') := by
  obtain ⟨hbound, hkind⟩ := h.bound hobs
  refine ⟨hbound, found_iff.trans (and_iff_left hkind), fun hkey => ?_⟩
  exact found_iff.mpr ⟨hkey ▸ hbound, hkind⟩

/-! ### An object under an alias -/

section Nicknamed

/-- One registry that is not observed, and one factory. -/
def nicknamed : Setup := ⟨.basic, 1, Unit, Empty, Empty, Unit, Empty⟩

/-- The number of the registry. -/
def nicknamedIndex : nicknamed.Index := Fin.mk 0 Nat.one_pos

/-- The factory makes the address of the database. -/
def nicknamedCaller : Caller nicknamed where
  factory _ := .make (.text "url") fun o => .done (.ok o)
  disposer d := d.elim
  observer o := o.elim

/-- The world with a registry in which the data source has an alias. -/
def nicknamedWorld : World nicknamed :=
  ⟨#v[((Registry.withOverriding true).registerAlias "dataSource" "ds").registry], (), 0, []⟩

/-- What is created under the alias is found under the alias. -/
theorem stored_found_nicknamed :
    LeavesBound nicknamedCaller nicknamedIndex "dataSource" ∧
    ∃ w', Stored nicknamedCaller nicknamedIndex "ds" .text nicknamedWorld w' "dataSource"
        ⟨0, .text "url"⟩ ∧
      (w'.registry nicknamedIndex).canonical "ds" = "dataSource" ∧
      (w'.registry nicknamedIndex).object? "ds" = none ∧
      Found nicknamedCaller nicknamedIndex "ds" .text ⟨0, .text "url"⟩ w' := by
  have hobs : LeavesBound nicknamedCaller nicknamedIndex "dataSource" := fun o => o.elim
  have hends : Ends nicknamedCaller (Script.obtainOf nicknamedIndex "ds" .text ()) nicknamedWorld
      (.ok ⟨0, .text "url"⟩) (run nicknamedCaller 10 (Config.start
        (Script.obtainOf nicknamedIndex "ds" .text ()) nicknamedWorld)).world :=
    Ends.of_result? rfl
  have hstored : Stored nicknamedCaller nicknamedIndex "ds" .text nicknamedWorld _ "dataSource"
      ⟨0, .text "url"⟩ := .created hends
  exact ⟨hobs, _, hstored, by decide, by decide, (stored_found hobs hstored).2.2 (by decide)⟩

/-- What is registered under the alias is bound to the alias, and is not found under it. -/
theorem stored_under_alias :
    LeavesBound nicknamedCaller nicknamedIndex "ds" ∧
    ∃ w', Ends nicknamedCaller (Script.registerValue nicknamedIndex "ds" (.text "url"))
        nicknamedWorld (.ok .registered) w' ∧
      (w'.registry nicknamedIndex).object? "ds" = some ⟨0, .text "url"⟩ ∧
      (w'.registry nicknamedIndex).containsCanonical "ds" = false ∧
      Ends nicknamedCaller (Script.get nicknamedIndex "ds" .text) w'
        (.error (.notFound "dataSource")) w' := by
  have hends : Ends nicknamedCaller (Script.registerValue nicknamedIndex "ds" (.text "url"))
      nicknamedWorld (.ok .registered) (run nicknamedCaller 10 (Config.start
        (Script.registerValue nicknamedIndex "ds" (.text "url")) nicknamedWorld)).world :=
    Ends.of_result? rfl
  exact ⟨fun o => o.elim, _, hends, rfl, rfl, ⟨10, rfl⟩⟩

end Nicknamed

end InstanceRegistry
