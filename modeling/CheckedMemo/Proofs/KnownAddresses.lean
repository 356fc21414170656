import CheckedMemo.Proofs.Keyless
import CheckedMemo.Value.Command
import Mathlib.Data.Set.Insert

/-!
# Known addresses

A program looks only at containers whose addresses it has been given.  Two memories are the same
within a set of known addresses if they differ at most in the contents of other addresses, and known
containers hold no value that refers to an unknown one (`Memory.SameWithin`).  Whatever can be seen
of a value that refers to known addresses only is then the same in both memories.  So is what a step
on memory gives, and what it has made becomes known (`Memory.SameWithin.run`).
-/

namespace CheckedMemo

variable {known known' : Set Nat}

/-! ### Values -/

namespace Value

mutual

/-- Whether a value refers to no container but those at known addresses. -/
def Within (known : Set Nat) : Value → Prop
  | .list a | .dict a | .object a => a ∈ known
  | .tuple _ items => AllWithin known items
  | .null | .bool _ | .int _ | .real _ | .notANumber _ | .text _ | .bytes _ => True

/-- Whether the values of a list refer to no container but those at known addresses. -/
def AllWithin (known : Set Nat) : List Value → Prop
  | [] => True
  | v :: vs => Within known v ∧ AllWithin known vs

end

theorem allWithin_iff {vs : List Value} : AllWithin known vs ↔ ∀ v ∈ vs, v.Within known := by
  induction vs with
  | nil => exact iff_of_true trivial fun _ h => nomatch h
  | cons v vs ih => rw [AllWithin, ih, List.forall_mem_cons]

mutual

theorem Within.mono (hsub : known ⊆ known') : ∀ {v : Value}, v.Within known → v.Within known'
  | .list _, h | .dict _, h | .object _, h => hsub h
  | .tuple _ _, h => AllWithin.mono hsub h
  | .null, _ | .bool _, _ | .int _, _ | .real _, _ | .notANumber _, _ | .text _, _
  | .bytes _, _ => trivial

theorem AllWithin.mono (hsub : known ⊆ known') :
    ∀ {vs : List Value}, AllWithin known vs → AllWithin known' vs
  | [], _ => trivial
  | _ :: _, h => ⟨Within.mono hsub h.1, AllWithin.mono hsub h.2⟩

end

end Value

/-- Whether the keys and values of a dictionary refer to known addresses only. -/
def Dict.Within (known : Set Nat) (d : Dict) : Prop :=
  ∀ e ∈ d.entries, e.2.1.Within known ∧ e.2.2.Within known

/-- Whether what a container holds refers to known addresses only. -/
def Container.Within (known : Set Nat) : Container → Prop
  | .list items => ∀ v ∈ items, v.Within known
  | .dict d => d.Within known
  | .object payload _ => payload.Within known

theorem Container.Within.mono (hsub : known ⊆ known') {c : Container} (h : c.Within known) :
    c.Within known' := by
  cases c with
  | list items => exact fun v hv => (h v hv).mono hsub
  | dict d => exact fun e he => (h e he).imp (.mono hsub) (.mono hsub)
  | object payload copier => exact Value.Within.mono hsub h

/-- The items of a list refer to known addresses only. -/
theorem Container.allWithin_toList {items : Array Value} (h : (Container.list items).Within known) :
    Value.AllWithin known items.toList :=
  Value.allWithin_iff.mpr fun v hv => h v (Array.mem_toList_iff.mp hv)

/-! ### Tables -/

namespace Table

variable {α β : Type} [DecidableEq α] {a : α} {b : β}

theorem mem_of_lookup {es : List (α × β)} (h : lookup a es = some b) : (a, b) ∈ es := by
  induction es with
  | nil => cases h
  | cons e rest ih =>
    obtain ⟨x, y⟩ := e
    rw [lookup] at h
    split at h
    · rename_i hx
      cases h
      cases hx
      exact List.mem_cons_self
    · exact List.mem_cons_of_mem _ (ih h)

theorem mem_of_mem_put {e : α × β} {es : List (α × β)} (h : e ∈ put a b es) :
    e = (a, b) ∨ e ∈ es := by
  induction es with
  | nil => exact .inl (List.mem_singleton.mp h)
  | cons x rest ih =>
    rw [put] at h
    split at h
    · rcases List.mem_cons.mp h with h | h
      · exact .inl h
      · exact .inr (List.mem_cons_of_mem _ h)
    · rcases List.mem_cons.mp h with rfl | h
      · exact .inr List.mem_cons_self
      · exact (ih h).imp_right (List.mem_cons_of_mem _)

end Table

/-! ### Outcomes -/

/-- Whether a fault reports no key that refers to an unknown address. -/
def Fault.Within (known : Set Nat) (f : Fault) : Prop :=
  ∀ key, f.key? = some key → key.Within known

theorem Fault.Within.mono (hsub : known ⊆ known') {f : Fault} (h : f.Within known) :
    f.Within known' := fun key hkey => (h key hkey).mono hsub

theorem Fault.within_of_none {f : Fault} (h : f.key? = none) : f.Within known := by
  intro key hkey
  rw [h] at hkey
  cases hkey

/-- Whether a result is one of which `P` holds, or a fault that reports no key with an unknown
address. -/
structure Yields {α : Type} (known : Set Nat) (P : α → Prop) (x : Except Fault α) : Prop where
  value (a : α) (h : x = .ok a) : P a
  fault (f : Fault) (h : x = .error f) : f.Within known

namespace Yields

variable {α β : Type} {P : α → Prop} {Q : β → Prop} {x : Except Fault α}

theorem ok {a : α} (h : P a) : Yields known P (.ok a) := by
  refine ⟨?_, fun _ h => nomatch h⟩
  rintro _ ⟨⟩
  exact h

theorem error {f : Fault} (h : f.Within known) : Yields known P (.error f) := by
  refine ⟨fun _ h => (nomatch h), ?_⟩
  rintro _ ⟨⟩
  exact h

theorem quiet {f : Fault} (h : f.key? = none) : Yields known P (.error f) :=
  error (Fault.within_of_none h)

/-- A failure that reports no key refers to nothing. -/
theorem keyless (h : Keyless x) : Yields known (fun _ => True) x :=
  ⟨fun _ _ => trivial, fun f hf => Fault.within_of_none (h f hf)⟩

theorem bind {f : α → Except Fault β} (h : Yields known P x)
    (hf : ∀ a, P a → Yields known Q (f a)) : Yields known Q (x >>= f) := by
  cases x with
  | ok a => exact hf a (h.value a rfl)
  | error f => exact error (h.fault f rfl)

theorem map {f : α → β} (h : Yields known P x) (hf : ∀ a, P a → Q (f a)) :
    Yields known Q (x.map f) := by
  cases x with
  | ok a => exact ok (hf a (h.value a rfl))
  | error f => exact error (h.fault f rfl)

theorem elim {o : Option α} {f : Fault} (hf : f.key? = none) (ho : ∀ a, o = some a → P a) :
    Yields known P (o.elim (.error f) .ok) := by
  cases o with
  | none => exact quiet hf
  | some a => exact ok (ho a rfl)

end Yields

/-- Whether two replies give the same value or fault, within a set of addresses that are known by
then, and leave states that are the same within that set. -/
def RepliesAlike {State : Type} (Same : Set Nat → State → State → Prop) (known : Set Nat)
    (r r' : Except Fault Value × State) : Prop :=
  ∃ known', known ⊆ known' ∧ r'.1 = r.1 ∧ Yields known' (·.Within known') r.1 ∧
    Same known' r.2 r'.2

/-! ### Memories -/

/-- Whether two ways of seeing addresses are the same for known ones. -/
structure Sight.SameWithin (known : Set Nat) (σ σ' : Sight) : Prop where
  container (path : List Enclosure) (a : Nat) (h : a ∈ known) :
    σ'.container path a = σ.container path a
  object (path : List Enclosure) (a : Nat) (h : a ∈ known) : σ'.object path a = σ.object path a

namespace Value

mutual

theorem snapshotBy_eq_of_within {σ σ' : Sight} (h : σ.SameWithin known σ') :
    ∀ (v : Value) (far near : List Enclosure), v.Within known →
      v.snapshotBy σ' far near = v.snapshotBy σ far near
  | .list a, far, near, ha | .dict a, far, near, ha => h.container (near ++ far) a ha
  | .object a, far, near, ha => h.object (near ++ far) a ha
  | .tuple serial items, far, near, hitems => by
    rw [snapshotBy, snapshotBy, snapshotsBy_eq_of_within h items far _ hitems]
  | .null, _, _, _ | .bool _, _, _, _ | .int _, _, _, _ | .real _, _, _, _
  | .notANumber _, _, _, _ | .text _, _, _, _ | .bytes _, _, _, _ => rfl

theorem snapshotsBy_eq_of_within {σ σ' : Sight} (h : σ.SameWithin known σ') :
    ∀ (vs : List Value) (far near : List Enclosure), AllWithin known vs →
      snapshotsBy σ' far near vs = snapshotsBy σ far near vs
  | [], _, _, _ => rfl
  | v :: vs, far, near, hvs => by
    rw [snapshotsBy, snapshotsBy, snapshotBy_eq_of_within h v far near hvs.1,
      snapshotsBy_eq_of_within h vs far near hvs.2]

end

mutual

theorem equalBy_eq_of_within {look look' : Value → Value → Bool}
    (h : ∀ v w, v.Within known → w.Within known → look' v w = look v w) :
    ∀ v w : Value, v.Within known → w.Within known → equalBy look' v w = equalBy look v w
  | .tuple _ vs, w, hvs, hw => by
    cases w with
    | tuple serial ws => exact itemsEqualBy_eq_of_within h vs ws hvs hw
    | _ => rfl
  | .list a, w, ha, hw => by
    cases w with
    | list b => exact h (.list a) (.list b) ha hw
    | _ => rfl
  | .dict a, w, ha, hw => by
    cases w with
    | dict b => exact h (.dict a) (.dict b) ha hw
    | _ => rfl
  | .null, w, _, _ | .bool _, w, _, _ | .int _, w, _, _ | .real _, w, _, _
  | .notANumber _, w, _, _ | .text _, w, _, _ | .bytes _, w, _, _ | .object _, w, _, _ => by
    cases w <;> rfl

theorem itemsEqualBy_eq_of_within {look look' : Value → Value → Bool}
    (h : ∀ v w, v.Within known → w.Within known → look' v w = look v w) :
    ∀ vs ws : List Value, AllWithin known vs → AllWithin known ws →
      itemsEqualBy look' vs ws = itemsEqualBy look vs ws
  | [], [], _, _ | [], _ :: _, _, _ | _ :: _, [], _, _ => rfl
  | v :: vs, w :: ws, hvs, hws => by
    rw [itemsEqualBy, itemsEqualBy, equalBy_eq_of_within h v w hvs.1 hws.1,
      itemsEqualBy_eq_of_within h vs ws hvs.2 hws.2]

end

end Value

namespace Container

theorem snapshotBy_eq_of_within {σ σ' : Sight} (h : σ.SameWithin known σ') (path : List Enclosure)
    {c : Container} (hc : c.Within known) : c.snapshotBy σ' path = c.snapshotBy σ path := by
  cases c with
  | list items =>
    rw [snapshotBy, snapshotBy, Value.snapshotsBy_eq_of_within h _ path [] (allWithin_toList hc)]
  | dict d =>
    refine congrArg Snapshot.dict (List.map_congr_left fun e he => ?_)
    rw [Value.snapshotBy_eq_of_within h e.2.1 path [] (hc e he).1,
      Value.snapshotBy_eq_of_within h e.2.2 path [] (hc e he).2]
  | object payload copier =>
    rw [snapshotBy, snapshotBy, Value.snapshotBy_eq_of_within h payload path [] hc]

end Container

theorem Dict.equalBy_eq_of_within {equal equal' : Value → Value → Bool} {d e : Dict}
    (h : ∀ v w, v.Within known → w.Within known → equal' v w = equal v w) (hd : d.Within known)
    (he : e.Within known) : d.equalBy equal' e = d.equalBy equal e := by
  unfold equalBy
  congr 1
  rw [Bool.eq_iff_iff, List.all_eq_true, List.all_eq_true]
  refine forall₂_congr fun entry hentry => ?_
  cases hfound : e.get? entry.1 with
  | none => exact Iff.rfl
  | some found =>
    have hw := (he _ (Table.mem_of_lookup hfound)).2
    dsimp only
    rw [h entry.2.2 found.2 (hd entry hentry).2 hw]

namespace Memory

/-- Whether two memories are the same but for the contents of unknown addresses.  What is at known
addresses, and the values of variables, refer to known addresses only. -/
structure SameWithin (known : Set Nat) (m n : Memory) : Prop where
  size : n.heap.size = m.heap.size
  serial : n.serial = m.serial
  bindings : n.bindings = m.bindings
  contents (a : Nat) (h : a ∈ known) :
    ∃ c, m.contents? a = some c ∧ n.contents? a = some c ∧ c.Within known
  bound (name : String) (v : Value) (h : m.bindings.get? name = some v) : v.Within known

namespace SameWithin

variable {m n : Memory}

theorem lt_size (h : SameWithin known m n) {a : Nat} (ha : a ∈ known) : a < m.heap.size := by
  obtain ⟨c, hc, -⟩ := h.contents a ha
  exact (Array.getElem?_eq_some_iff.mp hc).1

/-! ### What can be seen -/

theorem sight_of (payloads : Bool) {look look' : List Enclosure → Nat → Snapshot}
    (h : ∀ path, ∀ a ∈ known, look' path a = look path a) :
    (Sight.of payloads look).SameWithin known (.of payloads look') := by
  refine ⟨h, fun path a ha => ?_⟩
  cases payloads with
  | true => exact h path a ha
  | false => rfl

theorem snapshotAt_eq (h : SameWithin known m n) (payloads : Bool) (depth : Nat)
    (path : List Enclosure) {a : Nat} (ha : a ∈ known) :
    n.snapshotAt payloads depth path a = m.snapshotAt payloads depth path a := by
  induction depth generalizing path a with
  | zero =>
    obtain ⟨c, hm, hn, -⟩ := h.contents a ha
    rw [snapshotAt, snapshotAt, hm, hn]
  | succ depth ih =>
    obtain ⟨c, hm, hn, hc⟩ := h.contents a ha
    have hsight := sight_of payloads fun path a ha => ih path ha
    rw [snapshotAt, snapshotAt, hm, hn]
    dsimp only
    rw [Container.snapshotBy_eq_of_within hsight _ hc]

theorem sight (h : SameWithin known m n) (payloads : Bool) :
    (m.sight payloads).SameWithin known (n.sight payloads) := by
  unfold Memory.sight
  rw [h.size]
  exact sight_of payloads fun path a ha => h.snapshotAt_eq payloads _ path ha

theorem snapshot_eq (h : SameWithin known m n) {v : Value} (hv : v.Within known) :
    n.snapshot v = m.snapshot v :=
  Value.snapshotBy_eq_of_within (h.sight true) v [] [] hv

theorem text?_eq (h : SameWithin known m n) {v : Value} (hv : v.Within known) :
    n.text? v = m.text? v :=
  congrArg Snapshot.toText? (Value.snapshotBy_eq_of_within (h.sight false) v [] [] hv)

theorem written_eq (h : SameWithin known m n) {v : Value} (hv : v.Within known) :
    n.written v = m.written v := by
  unfold written
  rw [h.snapshot_eq hv]

theorem containersEqual_eq (h : SameWithin known m n) (depth : Nat) :
    ∀ v w : Value, v.Within known → w.Within known →
      n.containersEqual depth v w = m.containersEqual depth v w := by
  induction depth with
  | zero => exact fun _ _ _ _ => rfl
  | succ depth ih =>
    intro v w hv hw
    have hequal := Value.equalBy_eq_of_within ih
    -- two lists or two dictionaries; all else is told apart without a look at the memory
    cases v <;> cases w <;> try rfl
    · rename_i a b
      obtain ⟨c, hm, hn, hc⟩ := h.contents a hv
      obtain ⟨c', hm', hn', hc'⟩ := h.contents b hw
      rw [containersEqual, containersEqual, hm, hn, hm', hn']
      cases c <;> cases c' <;> try rfl
      exact Value.itemsEqualBy_eq_of_within ih _ _ (Container.allWithin_toList hc)
        (Container.allWithin_toList hc')
    · rename_i a b
      obtain ⟨c, hm, hn, hc⟩ := h.contents a hv
      obtain ⟨c', hm', hn', hc'⟩ := h.contents b hw
      rw [containersEqual, containersEqual, hm, hn, hm', hn']
      cases c <;> cases c' <;> try rfl
      exact Dict.equalBy_eq_of_within hequal hc hc'

theorem equal_eq (h : SameWithin known m n) {v w : Value} (hv : v.Within known)
    (hw : w.Within known) : n.equal v w = m.equal v w := by
  unfold equal
  rw [h.size]
  exact Value.equalBy_eq_of_within (h.containersEqual_eq _) v w hv hw

/-! ### Steps -/

/-- What is allocated becomes known. -/
theorem allocate (h : SameWithin known m n) {c : Container} (hc : c.Within known) :
    SameWithin (insert m.heap.size known) (m.allocate c).2 (n.allocate c).2 := by
  have hsub : known ⊆ insert m.heap.size known := Set.subset_insert _ _
  refine ⟨?_, h.serial, h.bindings, fun a ha => ?_, fun name v hv => (h.bound name v hv).mono hsub⟩
  · simp only [Memory.allocate, Array.size_push, h.size]
  · rcases Set.mem_insert_iff.mp ha with rfl | ha
    · -- the memories have as many addresses, so the new one is the same in both
      refine ⟨c, (m.contents?_allocate_self c).2, ?_, hc.mono hsub⟩
      rw [← h.size]
      exact (n.contents?_allocate_self c).2
    · obtain ⟨c', hm, hn, hc'⟩ := h.contents a ha
      have ha' := h.lt_size ha
      rw [m.contents?_allocate c ha', n.contents?_allocate c (h.size ▸ ha')]
      exact ⟨c', hm, hn, hc'.mono hsub⟩

/-- What is allocated may differ as long as its address stays unknown. -/
theorem allocate_unknown (h : SameWithin known m n) (c c' : Container) :
    SameWithin known (m.allocate c).2 (n.allocate c').2 := by
  refine ⟨?_, h.serial, h.bindings, fun a ha => ?_, h.bound⟩
  · simp only [Memory.allocate, Array.size_push, h.size]
  · have ha' := h.lt_size ha
    rw [m.contents?_allocate c ha', n.contents?_allocate c' (h.size ▸ ha')]
    exact h.contents a ha

/-- The contents of a known address may be changed to what refers to known addresses only. -/
theorem modify (h : SameWithin known m n) (a : Nat) {f : Container → Container}
    (hf : ∀ c, c.Within known → (f c).Within known) :
    SameWithin known (m.modify a f) (n.modify a f) := by
  refine ⟨?_, h.serial, h.bindings, fun b hb => ?_, h.bound⟩
  · simp only [Memory.modify, Array.size_modify, h.size]
  · obtain ⟨c, hm, hn, hc⟩ := h.contents b hb
    rw [contents?_modify, contents?_modify, hm, hn]
    split
    · exact ⟨f c, rfl, rfl, hf c hc⟩
    · exact ⟨c, rfl, rfl, hc⟩

end SameWithin

/-- Whether a step on memory refers to known addresses only. -/
def Command.Within (known : Set Nat) : Memory.Command → Prop
  | .newTuple items | .newList items => ∀ v ∈ items, v.Within known
  | .newDict entries => ∀ e ∈ entries, e.1.Within known ∧ e.2.Within known
  | .newObject payload _ => payload.Within known
  | .append v w | .item v w | .same v w | .equal v w => v.Within known ∧ w.Within known
  | .put container index value =>
    container.Within known ∧ index.Within known ∧ value.Within known
  | .assign _ value => value.Within known
  | .newNotANumber | .lookup _ => True

theorem Command.Within.mono (hsub : known ⊆ known') {c : Memory.Command} (h : c.Within known) :
    c.Within known' := by
  cases c with
  | newTuple items | newList items => exact fun v hv => (h v hv).mono hsub
  | newDict entries => exact fun e he => (h e he).imp (.mono hsub) (.mono hsub)
  | newObject payload copier => exact Value.Within.mono hsub h
  | append v w | item v w | same v w | equal v w => exact And.imp (.mono hsub) (.mono hsub) h
  | put container index value => exact ⟨h.1.mono hsub, h.2.1.mono hsub, h.2.2.mono hsub⟩
  | assign name value => exact Value.Within.mono hsub h
  | newNotANumber | lookup => trivial

variable {m n : Memory}

theorem yields_pick (what : String) {items : Array Value} (index : Value)
    (h : ∀ v ∈ items, v.Within known) : Yields known (·.Within known) (pick what items index) :=
  (Yields.keyless (keyless_placeOf what items.size index)).bind fun _ _ =>
    .elim rfl fun v hv => h v (Array.mem_of_getElem? hv)

theorem yields_dictPut {d : Dict} {key value : Value} (hd : d.Within known)
    (hkey : key.Within known) (hvalue : value.Within known) :
    Yields known (Dict.Within known) (d.put key value) := by
  unfold Dict.put
  split
  · exact .quiet rfl
  · rename_i k _
    refine .ok fun e he => ?_
    rcases Table.mem_of_mem_put he with rfl | he
    · refine ⟨?_, hvalue⟩
      cases hfound : d.get? k with
      | none => exact hkey
      | some found => exact (hd _ (Table.mem_of_lookup hfound)).1
    · exact hd e he

theorem yields_dictOfList {entries : List (Value × Value)}
    (h : ∀ e ∈ entries, e.1.Within known ∧ e.2.Within known) :
    Yields known (Dict.Within known) (Dict.ofList entries) := by
  have hfold (d : Dict) (hd : d.Within known) :
      Yields known (Dict.Within known) (entries.foldlM (fun d e => d.put e.1 e.2) d) := by
    induction entries generalizing d with
    | nil => exact .ok hd
    | cons e rest ih =>
      have he := h e List.mem_cons_self
      exact (yields_dictPut hd he.1 he.2).bind fun d hd =>
        ih (fun e he => h e (List.mem_cons_of_mem _ he)) d hd
  exact hfold ∅ fun _ h => nomatch h

theorem noKey_eq (h : SameWithin known m n) {key : Value} (hkey : key.Within known) :
    n.noKey key = m.noKey key := by
  cases key with
  | text s => rfl
  | _ => exact congrArg Fault.missing (h.text?_eq hkey)

theorem key?_noKey (m : Memory) (key : Value) : (m.noKey key).key? = none := by
  cases key <;> rfl

theorem yields_valueAt (m : Memory) {d : Dict} (key : Value) (hd : d.Within known) :
    Yields known (·.Within known) (m.valueAt d key) := by
  have hitem : Yields known (fun found => ∀ v, found = some v → v.Within known)
      (d.item? key) := by
    unfold Dict.item?
    split
    · exact .quiet rfl
    · refine .ok fun v hv => ?_
      obtain ⟨found, hfound, rfl⟩ := Option.map_eq_some_iff.mp hv
      exact (hd _ (Table.mem_of_lookup hfound)).2
  exact hitem.bind fun found hfound => .elim (m.key?_noKey key) hfound

theorem item_alike (h : SameWithin known m n) {container index : Value}
    (hcontainer : container.Within known) (hindex : index.Within known) :
    n.item container index = m.item container index ∧
      Yields known (·.Within known) (m.item container index) := by
  have hat {a : Nat} (ha : a ∈ known) {v : Value} (hv : v = .list a ∨ v = .dict a) :
      n.item v index = m.item v index ∧ Yields known (·.Within known) (m.item v index) := by
    obtain ⟨c, hm, hn, hc⟩ := h.contents a ha
    have hvalue (d : Dict) : n.valueAt d index = m.valueAt d index := by
      unfold valueAt
      rw [noKey_eq h hindex]
    rcases hv with rfl | rfl <;> (
      unfold item
      dsimp only
      rw [hm, hn]
      cases c with
      | list items => exact ⟨rfl, yields_pick _ index hc⟩
      | dict d => exact ⟨hvalue d, m.yields_valueAt index hc⟩
      | object payload copier => exact ⟨rfl, .quiet rfl⟩)
  cases container with
  | list a => exact hat hcontainer (.inl rfl)
  | dict a => exact hat hcontainer (.inr rfl)
  | tuple serial items =>
    have hall := Value.allWithin_iff.mp hcontainer
    exact ⟨rfl, yields_pick _ index fun v hv => hall v (List.mem_toArray.mp hv)⟩
  | _ => exact ⟨rfl, .quiet rfl⟩

theorem replacement_alike (h : SameWithin known m n) {a : Nat} {index value : Value}
    (ha : a ∈ known) (hindex : index.Within known) (hvalue : value.Within known) :
    n.replacement a index value = m.replacement a index value ∧
      Yields known (fun f => ∀ c : Container, c.Within known → (f c).Within known)
        (m.replacement a index value) := by
  obtain ⟨c, hm, hn, hc⟩ := h.contents a ha
  unfold replacement
  rw [hm, hn]
  refine ⟨rfl, ?_⟩
  cases c with
  | list items =>
    refine (Yields.keyless (keyless_placeOf _ _ _)).bind fun place _ => .ok fun c hc => ?_
    cases c with
    | list items =>
      intro v hv
      rcases Array.mem_or_eq_of_mem_setIfInBounds hv with hv | rfl
      · exact hc v hv
      · exact hvalue
    | dict | object => exact hc
  | dict d => exact (yields_dictPut hc hindex hvalue).bind fun d hd => .ok fun _ _ => hd
  | object payload copier => exact .quiet rfl

namespace SameWithin

/-- A reply that leaves the known addresses as they are. -/
theorem replies (h : SameWithin known m n) {r : Except Fault Value}
    (hr : Yields known (·.Within known) r) :
    RepliesAlike SameWithin known (r, m) (r, n) :=
  ⟨known, subset_rfl, rfl, hr, h⟩

/-- A reply with a new container. -/
theorem replies_allocate (h : SameWithin known m n) (value : Nat → Value) {c : Container}
    (hc : c.Within known) (hvalue : ∀ a, (value a).Within {a}) :
    RepliesAlike SameWithin known (.ok (value (m.allocate c).1), (m.allocate c).2)
      (.ok (value (n.allocate c).1), (n.allocate c).2) := by
  refine ⟨insert m.heap.size known, Set.subset_insert _ _, ?_, ?_, h.allocate hc⟩
  · exact congrArg (Except.ok ∘ value) h.size
  · exact .ok ((hvalue _).mono (Set.singleton_subset_iff.mpr (Set.mem_insert _ _)))

theorem replies_newDict (h : SameWithin known m n) {entries : List (Value × Value)}
    (hentries : ∀ e ∈ entries, e.1.Within known ∧ e.2.Within known) :
    RepliesAlike SameWithin known (m.run (.newDict entries)) (n.run (.newDict entries)) := by
  have hyields := yields_dictOfList hentries
  unfold Memory.run
  dsimp only
  cases hd : Dict.ofList entries with
  | ok d =>
    rw [hd] at hyields
    exact h.replies_allocate .dict (c := .dict d) (hyields.value d rfl) fun a => rfl
  | error f =>
    rw [hd] at hyields
    exact h.replies (.error (hyields.fault f rfl))

theorem replies_newTuple (h : SameWithin known m n) {items : List Value}
    (hitems : ∀ v ∈ items, v.Within known) :
    RepliesAlike SameWithin known (m.run (.newTuple items)) (n.run (.newTuple items)) := by
  unfold Memory.run newTuple made
  dsimp only
  split
  · exact h.replies (.ok trivial)
  · rw [h.serial]
    exact ⟨known, subset_rfl, rfl, .ok (Value.allWithin_iff.mpr hitems), h.size, rfl, h.bindings,
      h.contents, h.bound⟩

theorem replies_append (h : SameWithin known m n) (list : Value) {item : Value}
    (hitem : item.Within known) :
    RepliesAlike SameWithin known (m.run (.append list item)) (n.run (.append list item)) := by
  cases list with
  | list a =>
    refine ⟨known, subset_rfl, rfl, .ok trivial, h.modify a fun c hc => ?_⟩
    cases c with
    | list items =>
      intro v hv
      rcases Array.mem_push.mp hv with hv | rfl
      · exact hc v hv
      · exact hitem
    | dict | object => exact hc
  | _ => exact h.replies (.quiet rfl)

theorem replies_put (h : SameWithin known m n) {container index value : Value}
    (hcontainer : container.Within known) (hindex : index.Within known)
    (hvalue : value.Within known) : RepliesAlike SameWithin known
      (m.run (.put container index value)) (n.run (.put container index value)) := by
  have hat {a : Nat} (ha : a ∈ known) {v : Value} (hv : v = .list a ∨ v = .dict a) :
      RepliesAlike SameWithin known (m.put v index value) (n.put v index value) := by
    obtain ⟨heq, hyields⟩ := replacement_alike h ha hindex hvalue
    rcases hv with rfl | rfl <;> (
      unfold Memory.put
      dsimp only
      rw [heq]
      cases hf : m.replacement a index value with
      | ok f =>
        rw [hf] at hyields
        exact ⟨known, subset_rfl, rfl, .ok trivial, h.modify a (hyields.value f rfl)⟩
      | error f =>
        rw [hf] at hyields
        exact h.replies (.error (hyields.fault f rfl)))
  cases container with
  | list a => exact hat hcontainer (.inl rfl)
  | dict a => exact hat hcontainer (.inr rfl)
  | _ => exact h.replies (.quiet rfl)

theorem replies_assign (h : SameWithin known m n) (name : String) {value : Value}
    (hvalue : value.Within known) :
    RepliesAlike SameWithin known (m.run (.assign name value)) (n.run (.assign name value)) := by
  have hbindings : n.bindings.insert name value = m.bindings.insert name value := by
    rw [h.bindings]
  refine ⟨known, subset_rfl, rfl, .ok hvalue, h.size, h.serial, hbindings, h.contents,
    fun name' v (hv : (m.bindings.insert name value).get? name' = some v) => ?_⟩
  rw [Table.get?_insert] at hv
  split at hv
  · cases hv
    exact hvalue
  · exact h.bound name' v hv

/-- Memories that are the same within the known addresses give the same reply to a step that refers
to them only, and are the same then within the addresses that are known after it. -/
theorem run (h : SameWithin known m n) {c : Memory.Command} (hc : c.Within known) :
    RepliesAlike SameWithin known (m.run c) (n.run c) := by
  cases c with
  | newTuple items => exact h.replies_newTuple hc
  | newList items =>
    exact h.replies_allocate .list (c := .list items.toArray)
      (fun v hv => hc v (List.mem_toArray.mp hv)) fun a => rfl
  | newDict entries => exact h.replies_newDict hc
  | newObject payload copier =>
    exact h.replies_allocate .object (c := .object payload copier) hc fun a => rfl
  | newNotANumber =>
    unfold Memory.run newNotANumber made
    dsimp only
    rw [h.serial]
    exact ⟨known, subset_rfl, rfl, .ok trivial, h.size, rfl, h.bindings,
      h.contents, h.bound⟩
  | append list item => exact h.replies_append list hc.2
  | put container index value => exact h.replies_put hc.1 hc.2.1 hc.2.2
  | item container index =>
    obtain ⟨heq, hyields⟩ := item_alike h hc.1 hc.2
    unfold Memory.run
    dsimp only
    rw [heq]
    exact h.replies hyields
  | same v w => exact h.replies (.ok trivial)
  | equal v w =>
    unfold Memory.run
    dsimp only
    rw [h.equal_eq hc.1 hc.2]
    exact h.replies (.ok trivial)
  | assign name value => exact h.replies_assign name hc
  | lookup name =>
    unfold Memory.run
    dsimp only
    rw [h.bindings]
    split
    · rename_i v hv
      exact h.replies (.ok (h.bound name v hv))
    · exact h.replies (.quiet rfl)

end SameWithin

end Memory

end CheckedMemo
