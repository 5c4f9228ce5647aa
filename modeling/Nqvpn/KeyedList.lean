import Mathlib.Data.List.Sort
import Mathlib.Data.List.Destutter
import Mathlib.Data.Prod.Lex
import Std.Data.ExtTreeMap

/-!
# Keyed lists in canonical order

A list of entries with keys is canonical when its keys strictly increase.
`keepLastSorted` brings any list into that form, the last entry of each key
winning. A map collected from a canonical list of pairs lists it back unchanged.
What a loop over entries makes of one key is what the entries of that key make of it.
-/

namespace KeyedList

open Std.ExtTreeMap

variable {α κ : Type*} [LinearOrder κ]
variable (key : α → κ) (l : List α)

def Canonical : Prop := l.Pairwise (fun a b => key a < key b)

instance decidableCanonical (key : α → κ) (l : List α) : Decidable (Canonical key l) :=
  inferInstanceAs (Decidable (l.Pairwise _))

/-- Reversing first makes the stable sort put the last occurrence of each key
ahead of the others; dropping repeats of a key then keeps it. -/
def keepLastSorted : List α :=
  (l.reverse.insertionSort (fun a b => key a ≤ key b)).destutter (fun a b => key a ≠ key b)

instance totalKeyLe (key : α → κ) : Std.Total (fun a b : α => key a ≤ key b) :=
  ⟨fun a b => le_total (key a) (key b)⟩

instance isTransKeyLe (key : α → κ) : IsTrans α (fun a b : α => key a ≤ key b) :=
  ⟨fun _ _ _ h₁ h₂ => h₁.trans h₂⟩

instance transKeyLt (key : α → κ) : Trans (fun a b : α => key a < key b) (fun a b : α => key a < key b)
    (fun a b : α => key a < key b) :=
  ⟨fun h₁ h₂ => lt_trans h₁ h₂⟩

theorem canonical_of_ne {key : α → κ} {l : List α} (hle : l.Pairwise fun a b => key a ≤ key b)
    (hne : l.IsChain fun a b => key a ≠ key b) : Canonical key l := by
  rw [Canonical, ← List.isChain_iff_pairwise, List.isChain_iff_getElem]
  intro i hi
  exact lt_of_le_of_ne (List.isChain_iff_getElem.mp hle.isChain i hi) (List.isChain_iff_getElem.mp hne i hi)

theorem canonical_keepLastSorted : Canonical key (keepLastSorted key l) :=
  canonical_of_ne ((List.pairwise_insertionSort _ _).sublist (List.destutter_sublist _ _))
    (List.isChain_destutter _ _)

theorem Canonical.nodup_keys {key : α → κ} {l : List α} (h : Canonical key l) :
    (l.map key).Nodup :=
  List.pairwise_map.mpr (h.imp ne_of_lt)

theorem Canonical.key_inj {key : α → κ} {l : List α} (h : Canonical key l) {a b : α}
    (ha : a ∈ l) (hb : b ∈ l) (hkey : key a = key b) : a = b :=
  List.inj_on_of_nodup_map h.nodup_keys ha hb hkey

theorem keepLastSorted_of_canonical {key : α → κ} {l : List α} (h : Canonical key l) :
    keepLastSorted key l = l := by
  have hp : (l.reverse.insertionSort (fun a b => key a ≤ key b)).Perm l :=
    (List.perm_insertionSort _ _).trans (List.reverse_perm l)
  have hsort : l.reverse.insertionSort (fun a b => key a ≤ key b) = l := by
    refine hp.eq_of_pairwise ?_ (List.pairwise_insertionSort _ _) (h.imp le_of_lt)
    intro a b ha hb hab hba
    exact h.key_inj (hp.subset ha) hb (le_antisymm hab hba)
  rw [keepLastSorted, hsort]
  exact List.destutter_of_isChain _ _ (h.isChain.imp fun _ _ => ne_of_lt)

variable {l' : List α} {β : Type*}

theorem Canonical.ext {key : α → κ} {l : List α} (h : Canonical key l) (h' : Canonical key l')
    (hmem : ∀ a, a ∈ l ↔ a ∈ l') : l = l' := by
  have hp : l.Perm l' := (List.perm_ext_iff_of_nodup h.nodup_keys.of_map h'.nodup_keys.of_map).mpr
    hmem
  refine hp.eq_of_pairwise ?_ h h'
  intro a b _ _ hab hba
  exact absurd (lt_trans hab hba) (lt_irrefl _)

theorem Canonical.map {key : α → κ} {key' : β → κ} {l : List α} (h : Canonical key l) (f : α → β)
    (hf : ∀ a ∈ l, key' (f a) = key a) : Canonical key' (l.map f) := by
  rw [Canonical, List.pairwise_map]
  refine h.imp_of_mem ?_
  intro a b ha hb hab
  rwa [hf a ha, hf b hb]

@[simp] theorem keepLastSorted_keepLastSorted :
    keepLastSorted key (keepLastSorted key l) = keepLastSorted key l :=
  keepLastSorted_of_canonical (canonical_keepLastSorted key l)

section SortDedup

variable [DecidableEq α] {key : α → κ}

def sortDedup (key : α → κ) (l : List α) : List α :=
  (l.insertionSort (fun a b => key a ≤ key b)).destutter (fun a b => a ≠ b)

theorem canonical_sortDedup (hinj : Function.Injective key) (l : List α) : Canonical key (sortDedup key l) :=
  canonical_of_ne ((List.pairwise_insertionSort _ _).sublist (List.destutter_sublist _ _))
    ((List.isChain_destutter _ _).imp fun _ _ => hinj.ne)

theorem sortDedup_of_canonical {l : List α} (h : Canonical key l) : sortDedup key l = l := by
  rw [sortDedup, List.Pairwise.insertionSort_eq (h.imp le_of_lt)]
  exact List.destutter_of_isChain _ _ (h.isChain.imp fun a b hab heq =>
    absurd hab (by rw [heq]; exact lt_irrefl _))

theorem sortDedup_sortDedup (hinj : Function.Injective key) (l : List α) :
    sortDedup key (sortDedup key l) = sortDedup key l :=
  sortDedup_of_canonical (canonical_sortDedup hinj l)

end SortDedup

section Lookup

variable (key : α → κ) (k : κ)

theorem find?_orderedInsert (a : α) {l : List α} (hl : l.Pairwise (fun x y => key x ≤ key y)) :
    (l.orderedInsert (fun x y => key x ≤ key y) a).find? (fun x => key x = k) =
      if key a = k then some a else l.find? (fun x => key x = k) := by
  induction l with
  | nil =>
    by_cases ha : key a = k <;> simp [ha]
  | cons b l ih =>
    rw [List.pairwise_cons] at hl
    by_cases hab : key a ≤ key b
    · rw [List.orderedInsert_cons, if_pos hab, List.find?_cons]
      by_cases ha : key a = k <;> simp [ha]
    · rw [List.orderedInsert_cons, if_neg hab, List.find?_cons, ih hl.2, List.find?_cons]
      by_cases ha : key a = k
      · have hb : key b ≠ k := fun hb => hab (by rw [ha, hb])
        simp [ha, hb]
      · simp [ha]

theorem find?_insertionSort (l : List α) :
    (l.insertionSort (fun x y => key x ≤ key y)).find? (fun x => key x = k) =
      l.find? (fun x => key x = k) := by
  induction l with
  | nil => rfl
  | cons a l ih =>
    rw [List.insertionSort_cons, find?_orderedInsert key k a (List.pairwise_insertionSort _ _), ih,
      List.find?_cons]
    by_cases ha : key a = k <;> simp [ha]

theorem find?_destutter' (a : α) (l : List α) :
    (List.destutter' (fun x y => key x ≠ key y) a l).find? (fun x => key x = k) =
      (a :: l).find? (fun x => key x = k) := by
  induction l generalizing a with
  | nil => rfl
  | cons b l ih =>
    by_cases hab : key a = key b
    · rw [List.destutter'_cons_neg _ (by simpa using hab), ih]
      by_cases ha : key a = k
      · simp [ha]
      · simp [ha, ← hab]
    · rw [List.destutter'_cons_pos _ hab, List.find?_cons, ih, List.find?_cons (a := a)]

theorem find?_keepLastSorted (l : List α) :
    (keepLastSorted key l).find? (fun x => key x = k) = l.findRev? (fun x => key x = k) := by
  rw [List.findRev?_eq_find?_reverse, ← find?_insertionSort key k l.reverse, keepLastSorted]
  cases l.reverse.insertionSort (fun x y => key x ≤ key y) with
  | nil => rfl
  | cons a l' => exact find?_destutter' key k a l'

end Lookup

theorem Canonical.mem_iff_find? {key : α → κ} {l : List α} (h : Canonical key l) (a : α) :
    a ∈ l ↔ l.find? (fun x => key x = key a) = some a := by
  constructor
  · intro ha
    cases hf : l.find? (fun x => key x = key a) with
    | none =>
      have hne := List.find?_eq_none.mp hf a ha
      simp at hne
    | some b =>
      have hb : key b = key a := by simpa using List.find?_some hf
      rw [h.key_inj (List.mem_of_find?_eq_some hf) ha hb]
  · exact List.mem_of_find?_eq_some

/-- A list in canonical form with the last entry of each key of a raw list. -/
structure HoldsLast (key : α → κ) (raw l : List α) : Prop where
  canonical : Canonical key l
  mem_iff : ∀ a, a ∈ l ↔ raw.findRev? (fun x => key x = key a) = some a

theorem keepLastSorted_holdsLast : HoldsLast key l (keepLastSorted key l) := by
  refine ⟨canonical_keepLastSorted key l, fun a => ?_⟩
  rw [(canonical_keepLastSorted key l).mem_iff_find?, find?_keepLastSorted]

theorem HoldsLast.unique {key : α → κ} {raw raw' l : List α} (h : HoldsLast key raw l)
    (h' : HoldsLast key raw' l')
    (hraw : ∀ k, raw.findRev? (fun x => key x = k) = raw'.findRev? (fun x => key x = k)) : l = l' := by
  refine h.canonical.ext h'.canonical fun a => ?_
  rw [h.mem_iff, h'.mem_iff, hraw]

theorem mem_destutter'_ne [DecidableEq α] {x : α} (a : α) (l : List α) (hx : x ∈ a :: l) :
    x ∈ List.destutter' (fun a b => a ≠ b) a l := by
  induction l generalizing a with
  | nil => exact hx
  | cons b l ih =>
    by_cases hab : a = b
    · rw [List.destutter'_cons_neg _ (by simpa using hab)]
      refine ih a ?_
      simpa [hab] using hx
    · rw [List.destutter'_cons_pos _ hab]
      rcases List.mem_cons.mp hx with rfl | hx
      · exact List.mem_cons_self
      · exact List.mem_cons_of_mem a (ih b hx)

theorem mem_sortDedup [DecidableEq α] (a : α) : a ∈ sortDedup key l ↔ a ∈ l := by
  have hsort : a ∈ l.insertionSort (fun a b => key a ≤ key b) ↔ a ∈ l := List.mem_insertionSort _
  rw [← hsort]
  refine ⟨fun ha => (List.destutter_sublist _ _).subset ha, fun ha => ?_⟩
  unfold sortDedup
  cases hsorted : l.insertionSort (fun a b => key a ≤ key b) with
  | nil =>
    rw [hsorted] at ha
    cases ha
  | cons b l' =>
    rw [hsorted] at ha
    exact mem_destutter'_ne b l' ha

theorem sortDedup_holdsLast [DecidableEq α] {key : α → κ} (hinj : Function.Injective key) (l : List α) :
    HoldsLast key l (sortDedup key l) := by
  refine ⟨canonical_sortDedup hinj l, fun a => ?_⟩
  rw [mem_sortDedup, List.findRev?_eq_find?_reverse]
  constructor
  · intro ha
    cases hfound : l.reverse.find? (fun x => key x = key a) with
    | none =>
      have hne := List.find?_eq_none.mp hfound a (List.mem_reverse.mpr ha)
      simp at hne
    | some b =>
      have hkey : key b = key a := by simpa using List.find?_some hfound
      rw [hinj hkey]
  · intro hfound
    exact List.mem_reverse.mp (List.mem_of_find?_eq_some hfound)

def SameByKey (l' : List α) : Prop :=
  ∀ k, l.filter (fun x => key x = k) = l'.filter (fun x => key x = k)

theorem SameByKey.findRev? {key : α → κ} {l : List α} (h : SameByKey key l l') (k : κ) :
    l.findRev? (fun x => key x = k) = l'.findRev? (fun x => key x = k) := by
  simp only [List.findRev?_eq_find?_reverse, ← List.head?_filter, List.filter_reverse, h k]

section Maps

variable {β : Type*}
variable (key : α → κ) (val : α → β) (l : List α)

def collect : Std.ExtTreeMap κ β :=
  l.foldl (fun m a => m.insert (key a) (val a)) ∅

theorem getElem?_collect (k : κ) :
    (collect key val l)[k]? = (l.findRev? (fun x => key x = k)).map val := by
  induction l using List.reverseRecOn with
  | nil => rfl
  | append_singleton l a ih =>
    rw [collect, List.foldl_append, List.foldl_cons, List.foldl_nil, ← collect,
      getElem?_insert, ih]
    by_cases ha : key a = k <;> simp [ha]

theorem canonical_toList (m : Std.ExtTreeMap κ β) : Canonical Prod.fst m.toList :=
  ordered_keys_toList.imp fun h => compare_lt_iff_lt.mp h

theorem map_toList_collect (mk : κ × β → α) (hmk : ∀ a, mk (key a, val a) = a) (l : List α) :
    (collect key val l).toList.map mk = keepLastSorted key l := by
  have hget : ∀ k v, (collect key val l)[k]? = some v → key (mk (k, v)) = k ∧ val (mk (k, v)) = v ∧
      l.findRev? (fun x => key x = k) = some (mk (k, v)) := by
    intro k v hv
    rw [getElem?_collect] at hv
    obtain ⟨a, ha, rfl⟩ := Option.map_eq_some_iff.mp hv
    have hka : key a = k := by
      rw [List.findRev?_eq_find?_reverse] at ha
      simpa using List.find?_some ha
    subst hka
    rw [hmk]
    exact ⟨rfl, rfl, ha⟩
  have hcanon : Canonical key ((collect key val l).toList.map mk) := by
    refine (canonical_toList _).map mk ?_
    rintro ⟨k, v⟩ hkv
    exact (hget k v (mem_toList_iff_getElem?_eq_some.mp hkv)).1
  refine hcanon.ext (canonical_keepLastSorted key l) ?_
  intro a
  rw [(canonical_keepLastSorted key l).mem_iff_find?, find?_keepLastSorted, List.mem_map]
  constructor
  · rintro ⟨⟨k, v⟩, hkv, rfl⟩
    obtain ⟨hk, -, hf⟩ := hget k v (mem_toList_iff_getElem?_eq_some.mp hkv)
    rw [hk, hf]
  · intro hf
    refine ⟨(key a, val a), ?_, hmk a⟩
    rw [mem_toList_iff_getElem?_eq_some, getElem?_collect, hf, Option.map_some]

theorem collect_keepLastSorted :
    collect key val (keepLastSorted key l) = collect key val l := by
  apply ext_getElem?
  intro k
  rw [getElem?_collect, getElem?_collect, ← find?_keepLastSorted key k (keepLastSorted key l),
    keepLastSorted_of_canonical (canonical_keepLastSorted key l), find?_keepLastSorted]

end Maps

/-! ### Loops that update one entry per step -/

section Entries

variable {σ ν ρ ι : Type*} [DecidableEq ι] {key : ρ → ι} {step : σ → ρ → σ} {I : σ → Prop}

/-- If every step of a loop updates the entry of its key, an entry is in the end what the
steps with its key have made of it. -/
theorem foldl_entry {view : σ → ι → ν} {f : ρ → ν → ν} (hkeep : ∀ s r, I s → I (step s r))
    (hstep : ∀ s r k, I s → view (step s r) k = if key r = k then f r (view s k) else view s k) (l : List ρ)
    {s : σ} (hs : I s) (k : ι) :
    view (l.foldl step s) k = (l.filter (key · = k)).foldl (fun v r => f r v) (view s k) := by
  induction l generalizing s with
  | nil => rfl
  | cons r l ih =>
    rw [List.foldl_cons, ih (hkeep s r hs), hstep s r k hs, List.filter_cons]
    by_cases hk : key r = k
    · simp [hk]
    · simp [hk]

theorem foldl_keeps (hkeep : ∀ s r, I s → I (step s r)) (l : List ρ) {s : σ} (hs : I s) :
    I (l.foldl step s) := by
  induction l generalizing s with
  | nil => exact hs
  | cons r l ih => exact ih (hkeep s r hs)

theorem filter_key_eq_nil {l : List ρ} {k : ι} (h : k ∉ l.map key) : l.filter (key · = k) = [] := by
  refine List.filter_eq_nil_iff.mpr fun r hr hk => h ?_
  exact List.mem_map.mpr ⟨r, hr, of_decide_eq_true hk⟩

theorem filter_key_eq_singleton {l : List ρ} (hl : (l.map key).Nodup) {r : ρ} (hr : r ∈ l) :
    l.filter (key · = key r) = [r] := by
  induction l with
  | nil => cases hr
  | cons r' l ih =>
    obtain ⟨hfresh, hl⟩ := List.nodup_cons.mp hl
    rcases List.mem_cons.mp hr with rfl | hr
    · simp [filter_key_eq_nil hfresh]
    · have hne : key r' ≠ key r := fun heq => hfresh (heq ▸ List.mem_map_of_mem hr)
      simp [hne, ih hl hr]

end Entries

theorem eq_of_nodup_filterMap {f : α → Option β} {l : List α} (h : (l.filterMap f).Nodup) {a b : α} {c : β}
    (ha : a ∈ l) (hb : b ∈ l) (hfa : f a = some c) (hfb : f b = some c) : a = b := by
  induction l with
  | nil => cases ha
  | cons x l ih =>
    have hmem {y : α} (hy : y ∈ l) (hfy : f y = some c) : c ∈ l.filterMap f := List.mem_filterMap.mpr ⟨y, hy, hfy⟩
    have hcons (hfx : f x = some c) : c ∉ l.filterMap f := by
      rw [List.filterMap_cons_some hfx] at h
      exact (List.nodup_cons.mp h).1
    rcases List.mem_cons.mp ha with rfl | ha' <;> rcases List.mem_cons.mp hb with rfl | hb'
    · rfl
    · exact absurd (hmem hb' hfb) (hcons hfa)
    · exact absurd (hmem ha' hfa) (hcons hfb)
    · exact ih (h.sublist ((List.sublist_cons_self x l).filterMap f)) ha' hb'

end KeyedList

/-! ## Patches between maps -/

namespace MapPatch

variable {κ β : Type*} [LinearOrder κ] [DecidableEq β]

def changed (old new : Std.ExtTreeMap κ β) : List (κ × β) :=
  new.toList.filter (fun p => old[p.1]? ≠ some p.2)

def removed (old new : Std.ExtTreeMap κ β) : List κ := old.keys.filter (fun k => k ∉ new)

variable (m : Std.ExtTreeMap κ β)

def eraseAll (ks : List κ) : Std.ExtTreeMap κ β :=
  ks.foldl (fun m k => m.erase k) m

def insertAll (ps : List (κ × β)) : Std.ExtTreeMap κ β :=
  ps.foldl (fun m p => m.insert p.1 p.2) m

variable (m : Std.ExtTreeMap κ β)

omit [DecidableEq β] in
theorem getElem?_eraseAll (ks : List κ) (k : κ) :
    (eraseAll m ks)[k]? = if k ∈ ks then none else m[k]? := by
  induction ks generalizing m with
  | nil => simp [eraseAll]
  | cons k' ks ih =>
    rw [eraseAll, List.foldl_cons, ← eraseAll, ih, Std.ExtTreeMap.getElem?_erase]
    by_cases hk : k' = k
    · subst hk; simp
    · simp [hk, Ne.symm hk]

omit [DecidableEq β] in
theorem getElem?_insertAll (ps : List (κ × β)) (k : κ) :
    (insertAll m ps)[k]? = ((ps.findRev? (fun p => p.1 = k)).map Prod.snd).or m[k]? := by
  induction ps using List.reverseRecOn with
  | nil => simp [insertAll]
  | append_singleton ps p ih =>
    rw [insertAll, List.foldl_append, List.foldl_cons, List.foldl_nil, ← insertAll,
      Std.ExtTreeMap.getElem?_insert, ih]
    by_cases hp : p.1 = k <;> simp [hp]

theorem findRev?_changed (old new : Std.ExtTreeMap κ β) (k : κ) :
    ((changed old new).findRev? (fun p => p.1 = k)).map Prod.snd =
      if old[k]? = new[k]? then none else new[k]? := by
  have hmem : ∀ v, (k, v) ∈ changed old new ↔ new[k]? = some v ∧ old[k]? ≠ some v := by
    intro v
    simp [changed, Std.ExtTreeMap.mem_toList_iff_getElem?_eq_some]
  rw [List.findRev?_eq_find?_reverse]
  cases hf : (changed old new).reverse.find? (fun p => p.1 = k) with
  | none =>
    have hno : ∀ v, (k, v) ∉ changed old new := by
      intro v hv
      have := List.find?_eq_none.mp hf (k, v) (List.mem_reverse.mpr hv)
      simp at this
    cases hn : new[k]? with
    | none => simp
    | some v =>
      have : old[k]? = some v := by
        by_contra hne
        exact hno v ((hmem v).mpr ⟨hn, hne⟩)
      simp [this]
  | some p =>
    obtain ⟨k', v⟩ := p
    have hk : k' = k := by simpa using List.find?_some hf
    subst hk
    obtain ⟨hn, ho⟩ := (hmem v).mp (List.mem_reverse.mp (List.mem_of_find?_eq_some hf))
    simp [hn, ho]

theorem insertAll_changed_eraseAll_removed (old new : Std.ExtTreeMap κ β) :
    insertAll (eraseAll old (removed old new)) (changed old new) = new := by
  apply Std.ExtTreeMap.ext_getElem?
  intro k
  rw [getElem?_insertAll, findRev?_changed, getElem?_eraseAll]
  have hrem : k ∈ removed old new ↔ k ∈ old ∧ k ∉ new := by
    simp [removed, Std.ExtTreeMap.mem_keys]
  by_cases heq : old[k]? = new[k]?
  · have hno : k ∉ removed old new := by
      rw [hrem, Std.ExtTreeMap.mem_iff_isSome_getElem?, Std.ExtTreeMap.mem_iff_isSome_getElem?, heq]
      exact fun h => h.2 h.1
    simp [heq, hno]
  · cases hn : new[k]? with
    | some v => simp [hn ▸ heq]
    | none =>
      have ho : k ∈ removed old new := by
        rw [hrem, Std.ExtTreeMap.mem_iff_isSome_getElem?, Std.ExtTreeMap.mem_iff_isSome_getElem?, hn]
        exact ⟨Option.isSome_iff_ne_none.mpr (fun ho => heq (ho.trans hn.symm)), by simp⟩
      simp [ho]

theorem insertAll_toList : insertAll ∅ m.toList = m := by
  have hchanged : changed ∅ m = m.toList := by simp [changed]
  have herase : eraseAll ∅ (removed ∅ m) = (∅ : Std.ExtTreeMap κ β) := by
    apply Std.ExtTreeMap.ext_getElem?
    intro k
    simp [getElem?_eraseAll]
  have hpatch := insertAll_changed_eraseAll_removed ∅ m
  rwa [hchanged, herase] at hpatch

end MapPatch
