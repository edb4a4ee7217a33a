import Mathlib.Data.List.Perm.Subperm
import Mathlib.Data.List.Nodup
/-!
# Table — a finite map whose keys are distinct, and tables of buckets

The entries come in an order of no meaning (`Table.Same` is equality up to it), as a hash map's do.  A table whose
values are lists is a multimap: its `items` are the pairs of a key and a member of the key's list, and every operation
on a bucket is known by what it does to the items, up to order (`items_push`, `items_setBucket`).
-/
/-- A loop over mutable values with an accumulator. -/
def mapAccum {σ α β : Type*} (f : σ → α → σ × β) : σ → List α → σ × List β
  | s, [] => (s, [])
  | s, a :: l => ((mapAccum f (f s a).1 l).1, (f s a).2 :: (mapAccum f (f s a).1 l).2)

/-- A loop that writes each value independently of the accumulator is a map. -/
theorem mapAccum_snd {σ α β : Type*} {f : σ → α → σ × β} {g : α → β} (h : ∀ s a, (f s a).2 = g a) :
    ∀ (s : σ) (l : List α), (mapAccum f s l).2 = l.map g
  | _, [] => rfl
  | s, a :: l => by rw [mapAccum, List.map_cons, mapAccum_snd h _ l, h]

theorem mapAccum_fst {σ α β : Type*} (f : σ → α → σ × β) :
    ∀ (s : σ) (l : List α), (mapAccum f s l).1 = l.foldl (fun s a => (f s a).1) s
  | _, [] => rfl
  | s, a :: l => by rw [mapAccum, List.foldl_cons, mapAccum_fst f _ l]

structure Table (κ α : Type*) where
  entries : List (κ × α)
  nodup   : (entries.map Prod.fst).Nodup
  deriving DecidableEq

namespace Table

variable {κ α : Type*}

def empty : Table κ α := ⟨[], List.nodup_nil⟩

/-- The same entries in some order. -/
def Same (t t' : Table κ α) : Prop := t.entries.Perm t'.entries

variable [DecidableEq κ]

def get? (t : Table κ α) (k : κ) : Option α := (t.entries.find? (fun p => p.1 = k)).map Prod.snd

def erase (t : Table κ α) (k : κ) : Table κ α :=
  ⟨t.entries.filter (fun p => p.1 ≠ k), (List.filter_sublist.map Prod.fst).nodup t.nodup⟩

theorem not_mem_keys_erase (t : Table κ α) (k : κ) : k ∉ (t.erase k).entries.map Prod.fst := by
  simp [erase]

def insert (t : Table κ α) (k : κ) (v : α) : Table κ α :=
  ⟨(k, v) :: (t.erase k).entries, List.nodup_cons.2 ⟨t.not_mem_keys_erase k, (t.erase k).nodup⟩⟩

@[simp] theorem get?_empty (k : κ) : (empty : Table κ α).get? k = none := rfl

/-- The entries with a property. -/
def retain (t : Table κ α) (p : κ → α → Bool) : Table κ α :=
  ⟨t.entries.filter fun e => p e.1 e.2, (List.filter_sublist.map Prod.fst).nodup t.nodup⟩

/-- The keys are distinct, so looking a key up finds its entry. -/
theorem get?_eq_some {t : Table κ α} {k : κ} {v : α} : t.get? k = some v ↔ (k, v) ∈ t.entries := by
  obtain ⟨entries, nodup⟩ := t
  simp only [get?]
  induction entries with
  | nil => simp
  | cons p l ih =>
    rw [List.map_cons, List.nodup_cons] at nodup
    by_cases hp : p.1 = k
    · rw [List.find?_cons_of_pos (by simpa using hp)]
      subst hp
      constructor
      · rintro h; cases h; exact List.mem_cons_self
      · intro h
        rcases List.mem_cons.1 h with h | h
        · rw [← h]; rfl
        · exact absurd (List.mem_map.2 ⟨_, h, rfl⟩) nodup.1
    · rw [List.find?_cons_of_neg (by simpa using hp), ih nodup.2, List.mem_cons]
      exact ⟨Or.inr, fun h => h.resolve_left (fun he => hp (by rw [← he]))⟩

theorem get?_eq_none {t : Table κ α} {k : κ} : t.get? k = none ↔ ∀ p ∈ t.entries, p.1 ≠ k := by
  simp [get?]

theorem mem_erase {t : Table κ α} {k : κ} {p : κ × α} : p ∈ (t.erase k).entries ↔ p ∈ t.entries ∧ p.1 ≠ k := by
  simp [erase]

@[simp] theorem get?_retain (t : Table κ α) (p : κ → α → Bool) (k : κ) :
  (t.retain p).get? k = (t.get? k).filter (p k) := by
  ext v
  rw [get?_eq_some, Option.mem_def.symm, Option.mem_filter_iff, Option.mem_def, get?_eq_some]
  exact List.mem_filter

@[simp] theorem get?_erase (t : Table κ α) (k k' : κ) : (t.erase k).get? k' = if k' = k then none else t.get? k' := by
  split
  · rename_i h; rw [get?_eq_none]; rintro p hp rfl; exact (mem_erase.1 hp).2 h
  · rename_i h
    refine Option.ext fun v => ?_
    rw [get?_eq_some, get?_eq_some, mem_erase]
    exact ⟨And.left, fun hv => ⟨hv, h⟩⟩

@[simp] theorem get?_insert (t : Table κ α) (k k' : κ) (v : α) :
    (t.insert k v).get? k' = if k' = k then some v else t.get? k' := by
  split
  · rename_i h; subst h; rw [get?_eq_some]; exact List.mem_cons_self
  · rename_i h
    refine Option.ext fun w => ?_
    rw [get?_eq_some, get?_eq_some]
    simp [insert, mem_erase, h]

/-- **A table is the entry of a key and the rest.** -/
theorem perm_of_get? {t : Table κ α} {k : κ} {v : α} (h : t.get? k = some v) :
    t.entries.Perm ((k, v) :: (t.erase k).entries) := by
  refine (List.perm_ext_iff_of_nodup (List.Nodup.of_map _ t.nodup) ?_).2 fun p => ?_
  · exact List.Nodup.of_map Prod.fst (t.insert k v).nodup
  · rw [List.mem_cons, mem_erase]
    constructor
    · intro hp
      by_cases hk : p.1 = k
      · refine .inl (Prod.ext hk ?_)
        have := get?_eq_some.2 (show (k, p.2) ∈ t.entries from hk ▸ hp)
        rw [h] at this
        exact (Option.some.inj this).symm
      · exact .inr ⟨hp, hk⟩
    · rintro (rfl | hp)
      · exact get?_eq_some.1 h
      · exact hp.1

/-- Writing back the entry a table has. -/
theorem same_insert {t : Table κ α} {k : κ} {v : α} (h : t.get? k = some v) : (t.insert k v).Same t :=
    (perm_of_get? h).symm

theorem erase_of_get?_none {t : Table κ α} {k : κ} (h : t.get? k = none) : (t.erase k).entries = t.entries :=
  List.filter_eq_self.2 fun p hp => by simpa using get?_eq_none.1 h p hp

theorem Same.get? {t t' : Table κ α} (h : Same t t') (k : κ) : t.get? k = t'.get? k :=
  Option.ext fun v => by rw [get?_eq_some, get?_eq_some]; exact h.mem_iff

/-! ## Buckets -/

omit [DecidableEq κ] in
/-- The members of the buckets, each under its key. -/
def items (t : Table κ (List α)) : List (κ × α) := t.entries.flatMap fun p => p.2.map (Prod.mk p.1)

def push (t : Table κ (List α)) (k : κ) (a : α) : Table κ (List α) := t.insert k ((t.get? k).getD [] ++ [a])

/-- Replaces a bucket; an empty one is taken out of the table. -/
def setBucket (t : Table κ (List α)) (k : κ) (l : List α) : Table κ (List α) :=
  if l.isEmpty then t.erase k else t.insert k l

omit [DecidableEq κ] in
@[simp] theorem items_empty : (empty : Table κ (List α)).items = [] := rfl

theorem mem_items {t : Table κ (List α)} {k : κ} {a : α} : (k, a) ∈ t.items ↔ ∃ l, t.get? k = some l ∧ a ∈ l := by
  simp only [items, List.mem_flatMap, List.mem_map, Prod.mk.injEq, get?_eq_some]
  constructor
  · rintro ⟨p, hp, b, hb, rfl, rfl⟩; exact ⟨p.2, hp, hb⟩
  · rintro ⟨l, hl, ha⟩; exact ⟨(k, l), hl, a, ha, rfl, rfl⟩

theorem items_insert (t : Table κ (List α)) (k : κ) (l : List α) :
    (t.insert k l).items = l.map (Prod.mk k) ++ (t.erase k).items := by
  simp [insert, items]

/-- **The items are those of one bucket and the rest.** -/
theorem items_of_get? {t : Table κ (List α)} {k : κ} {l : List α} (h : t.get? k = some l) :
    t.items.Perm (l.map (Prod.mk k) ++ (t.erase k).items) := by
  have := (perm_of_get? h).flatMap_right (fun p : κ × List α => p.2.map (Prod.mk p.1))
  simpa [items] using this

theorem items_of_get?_none {t : Table κ (List α)} {k : κ} (h : t.get? k = none) : (t.erase k).items = t.items := by
  rw [items, erase_of_get?_none h, items]

theorem items_push (t : Table κ (List α)) (k : κ) (a : α) : (t.push k a).items.Perm ((k, a) :: t.items) := by
  rw [push, items_insert]
  cases h : t.get? k with
  | none => simp [items_of_get?_none h]
  | some l =>
    have hp : (l.map (Prod.mk k) ++ [(k, a)] ++ (t.erase k).items).Perm
      ((k, a) :: (l.map (Prod.mk k) ++ (t.erase k).items)) := by
      rw [List.append_assoc]
      exact List.perm_middle
    simpa using hp.trans ((items_of_get? h).symm.cons _)

theorem items_setBucket (t : Table κ (List α)) (k : κ) (l : List α) :
    (t.setBucket k l).items = l.map (Prod.mk k) ++ (t.erase k).items := by
  unfold setBucket
  split
  · rename_i h; rw [List.isEmpty_iff.1 h]; rfl
  · exact items_insert t k l

/-- The members a bucket retains are those outside it or with the property. -/
theorem items_retain {t : Table κ (List α)} {k : κ} {l : List α} (h : t.get? k = some l) (q : α → Bool) :
    (t.setBucket k (l.filter q)).items.Perm (t.items.filter fun p => p.1 ≠ k || q p.2) := by
  have hrest : (t.erase k).items.filter (fun p => p.1 ≠ k || q p.2) = (t.erase k).items := by
    refine List.filter_eq_self.2 fun p hp => ?_
    obtain ⟨l', hl', -⟩ := mem_items.1 hp
    by_cases hk : p.1 = k
    · simp [hk] at hl'
    · simp [hk]
  rw [items_setBucket]
  refine List.Perm.trans ?_ ((items_of_get? h).filter _).symm
  rw [List.filter_append, hrest, List.filter_map]
  simp [Function.comp_def]

/-- Writing the members of one bucket. -/
theorem items_mapBucket {t : Table κ (List α)} {k : κ} {l : List α} (h : t.get? k = some l) (f : α → α) :
    (t.insert k (l.map f)).items.Perm (t.items.map fun p => if p.1 = k then (p.1, f p.2) else p) := by
  have hrest : (t.erase k).items.map (fun p => if p.1 = k then (p.1, f p.2) else p) = (t.erase k).items := by
    refine (List.map_congr_left fun p hp => ?_).trans (List.map_id _)
    obtain ⟨l', hl', -⟩ := mem_items.1 hp
    exact if_neg fun hk => by simp [hk] at hl'
  rw [items_insert]
  refine List.Perm.trans ?_ ((items_of_get? h).map _).symm
  rw [List.map_append, hrest, List.map_map, List.map_map]
  simp [Function.comp_def]

omit [DecidableEq κ] in
/-- No bucket is empty. -/
def NoEmpty (t : Table κ (List α)) : Prop := ∀ p ∈ t.entries, p.2 ≠ []

omit [DecidableEq κ] in
theorem noEmpty_empty : (empty : Table κ (List α)).NoEmpty := fun _ h => by cases h

theorem NoEmpty.insert {t : Table κ (List α)} (h : t.NoEmpty) (k : κ) {l : List α} (hl : l ≠ []) :
    (t.insert k l).NoEmpty := by
  intro p hp
  rcases List.mem_cons.1 hp with rfl | hp
  · exact hl
  · exact h p (mem_erase.1 hp).1

theorem NoEmpty.push {t : Table κ (List α)} (h : t.NoEmpty) (k : κ) (a : α) : (t.push k a).NoEmpty :=
  h.insert k (by simp)

theorem NoEmpty.setBucket {t : Table κ (List α)} (h : t.NoEmpty) (k : κ) (l : List α) : (t.setBucket k l).NoEmpty := by
  unfold Table.setBucket
  split
  · exact fun p hp => h p (mem_erase.1 hp).1
  · rename_i hl; exact h.insert k (by simpa using hl)

omit [DecidableEq κ] in
theorem Same.items {t t' : Table κ (List α)} (h : Same t t') : t.items.Perm t'.items := List.Perm.flatMap_right _ h

omit [DecidableEq κ] in
theorem Same.noEmpty {t t' : Table κ (List α)} (h : Same t t') (hn : t.NoEmpty) : t'.NoEmpty :=
  fun p hp => hn p (h.mem_iff.2 hp)

omit [DecidableEq κ] in
/-- Turns of a loop over a table's buckets keep the keys. -/
theorem keys_mapAccum {σ : Type*} (f : σ → κ × List α → σ × (κ × List α)) (hf : ∀ s p, (f s p).2.1 = p.1) :
    ∀ (s : σ) (l : List (κ × List α)), (mapAccum f s l).2.map Prod.fst = l.map Prod.fst
  | _, [] => rfl
  | s, p :: l => by rw [mapAccum, List.map_cons, List.map_cons, keys_mapAccum f hf _ l, hf]

omit [DecidableEq κ] in
/-- A loop over the mutable members of all buckets. -/
def forItems {σ : Type*} (f : σ → α → σ × α) (s : σ) (t : Table κ (List α)) : σ × Table κ (List α) :=
  ((mapAccum (fun s p => ((mapAccum f s p.2).1, (p.1, (mapAccum f s p.2).2))) s t.entries).1,
   ⟨(mapAccum (fun s p => ((mapAccum f s p.2).1, (p.1, (mapAccum f s p.2).2))) s t.entries).2,
    by rw [keys_mapAccum _ (fun _ _ => rfl)]; exact t.nodup⟩)

omit [DecidableEq κ] in
theorem entries_forItems {σ : Type*} {f : σ → α → σ × α} {g : α → α} (h : ∀ s a, (f s a).2 = g a) (s : σ)
    (t : Table κ (List α)) : (t.forItems f s).2.entries = t.entries.map fun p => (p.1, p.2.map g) :=
  mapAccum_snd (fun _ _ => by rw [mapAccum_snd h]) _ _

omit [DecidableEq κ] in
/-- **A loop that writes each member independently of the accumulator** maps the items. -/
theorem items_forItems {σ : Type*} {f : σ → α → σ × α} {g : α → α} (h : ∀ s a, (f s a).2 = g a) (s : σ)
    (t : Table κ (List α)) : (t.forItems f s).2.items = t.items.map fun p => (p.1, g p.2) := by
  simp only [items, entries_forItems h, List.flatMap_map, List.map_flatMap, List.map_map]
  rfl

omit [DecidableEq κ] in
/-- Its accumulator is the fold over the members. -/
theorem fst_forItems {σ : Type*} (f : σ → α → σ × α) (s : σ) (t : Table κ (List α)) :
    (t.forItems f s).1 = (t.items.map Prod.snd).foldl (fun s a => (f s a).1) s := by
  have hflat : t.items.map Prod.snd = (t.entries.map Prod.snd).flatten := by
    simp [items, List.flatMap_def, Function.comp_def]
  rw [hflat, List.foldl_flatten, List.foldl_map, forItems, mapAccum_fst]
  simp only [mapAccum_fst]

omit [DecidableEq κ] in
theorem NoEmpty.forItems {σ : Type*} {f : σ → α → σ × α} {g : α → α} (h : ∀ s a, (f s a).2 = g a) (s : σ)
    {t : Table κ (List α)} (hn : t.NoEmpty) : (t.forItems f s).2.NoEmpty := by
  intro p hp
  rw [entries_forItems h] at hp
  obtain ⟨q, hq, rfl⟩ := List.mem_map.1 hp
  simpa using hn q hq

/-! ## Nothing left -/

theorem eq_empty_of_get? {t : Table κ α} (h : ∀ k, t.get? k = none) : t = .empty := by
  obtain ⟨entries, nodup⟩ := t
  cases entries with
  | nil => rfl
  | cons p entries =>
    have hfound := get?_eq_some (t := ⟨p :: entries, nodup⟩).2 (show (p.1, p.2) ∈ p :: entries from List.mem_cons_self)
    rw [h] at hfound
    cases hfound

omit [DecidableEq κ] in
theorem NoEmpty.eq_empty {t : Table κ (List α)} (h : t.NoEmpty) (hi : t.items = []) : t = .empty := by
  obtain ⟨entries, nodup⟩ := t
  cases entries with
  | nil => rfl
  | cons p entries =>
    have hnone := List.flatMap_eq_nil_iff.1 hi p List.mem_cons_self
    exact absurd (List.map_eq_nil_iff.1 hnone) (h p List.mem_cons_self)

end Table
