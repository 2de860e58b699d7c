import Mathlib.Data.List.Dedup
import Mathlib.Data.List.Induction
import Mathlib.Data.List.Sort
import TimingCharts.Grouping

/-!
# Groups by key

`group` inserts one value after the other. `group_eq` says what comes of it without the
insertions: the keys that occur, in increasing order, each with its values in the order in
which they came. The invariant carried through the insertions is `Groups`.
-/

namespace TimingCharts

section
variable {κ : Type} [Ord κ]

def Precedes (a b : κ) : Prop := compare a b = .lt

/-- The keys that occur, each once and in increasing order. -/
def distinct [DecidableEq κ] (keys : List κ) : List κ :=
  keys.dedup.mergeSort fun a b => (compare a b).isLE

@[simp] theorem mem_distinct [DecidableEq κ] {keys : List κ} {k : κ} :
    k ∈ distinct keys ↔ k ∈ keys := by
  rw [distinct, List.mem_mergeSort, List.mem_dedup]

theorem length_distinct [DecidableEq κ] (keys : List κ) :
    (distinct keys).length = keys.dedup.length :=
  List.length_mergeSort _

variable [Std.TransOrd κ]

theorem Precedes.irrefl (a : κ) : ¬ Precedes a a := by
  intro h
  have := Std.ReflOrd.compare_self.symm.trans h
  cases this

theorem Precedes.trans {a b c : κ} (hab : Precedes a b) (hbc : Precedes b c) : Precedes a c :=
  Std.TransCmp.lt_trans hab hbc

theorem Precedes.ne {a b : κ} (h : Precedes a b) : a ≠ b := by
  rintro rfl
  exact Precedes.irrefl a h

instance : Std.Irrefl (@Precedes κ _) := ⟨Precedes.irrefl⟩

instance : Std.Antisymm (@Precedes κ _) where
  antisymm _ _ hab hba := absurd hba (Std.OrientedCmp.not_lt_of_lt hab)

variable [DecidableEq κ] [Std.LawfulEqOrd κ]

theorem distinct_pairwise (keys : List κ) : (distinct keys).Pairwise Precedes := by
  have hle : (distinct keys).Pairwise fun a b => (compare a b).isLE := by
    apply List.pairwise_mergeSort
    · intro a b c hab hbc
      exact Std.TransCmp.isLE_trans hab hbc
    · intro a b
      rw [Std.OrientedOrd.eq_swap (a := b)]
      cases compare a b <;> rfl
  have hne : (distinct keys).Pairwise (· ≠ ·) :=
    (List.mergeSort_perm _ _).nodup_iff.mpr (List.nodup_dedup keys)
  refine hle.imp₂ (fun a b hab hn => ?_) hne
  rcases Ordering.isLE_iff_eq_lt_or_eq_eq.mp hab with h | h
  · exact h
  · exact absurd (Std.LawfulEqCmp.eq_of_compare h) hn

theorem eq_distinct {l keys : List κ} (hl : l.Pairwise Precedes) (h : ∀ k, k ∈ l ↔ k ∈ keys) :
    l = distinct keys :=
  hl.eq_of_mem_iff (distinct_pairwise keys) fun k => by rw [h, mem_distinct]

theorem distinct_congr {l keys : List κ} (h : ∀ k, k ∈ l ↔ k ∈ keys) : distinct l = distinct keys :=
  eq_distinct (distinct_pairwise l) fun k => by rw [mem_distinct, h]

theorem filter_distinct (p : κ → Bool) (keys : List κ) :
    (distinct keys).filter p = distinct (keys.filter p) :=
  eq_distinct ((distinct_pairwise keys).filter p) fun k => by simp

end

section
variable {κ τ α : Type} [DecidableEq κ]

def valuesAt (key : α → κ) (value : α → τ) (items : List α) (k : κ) : List τ :=
  (items.filter fun a => key a = k).map value

theorem valuesAt_snoc (key : α → κ) (value : α → τ) (items : List α) (a : α) (k : κ) :
    valuesAt key value (items ++ [a]) k =
      valuesAt key value items k ++ if key a = k then [value a] else [] := by
  rw [valuesAt, List.filter_append, List.map_append, valuesAt]
  by_cases h : key a = k <;> simp [h]

theorem valuesAt_eq_nil {key : α → κ} {value : α → τ} {items : List α} {k : κ}
    (h : k ∉ items.map key) : valuesAt key value items k = [] := by
  rw [valuesAt, List.map_eq_nil_iff, List.filter_eq_nil_iff]
  intro a ha hk
  exact h (List.mem_map.mpr ⟨a, ha, by simpa using hk⟩)

end

section
variable {κ τ α : Type} [Ord κ] [Std.LawfulEqOrd κ]

def Increasing (groups : List (κ × List τ)) : Prop := groups.Pairwise fun a b => Precedes a.1 b.1

theorem mem_keys_addToGroup (key : κ) (value : τ) (groups : List (κ × List τ)) (k : κ) :
    k ∈ (addToGroup key value groups).map Prod.fst ↔ k = key ∨ k ∈ groups.map Prod.fst := by
  induction groups with
  | nil => simp [addToGroup]
  | cons g rest ih =>
    obtain ⟨k₀, values⟩ := g
    rw [addToGroup]
    cases hc : compare key k₀ with
    | lt => simp
    | eq =>
      have := Std.LawfulEqCmp.eq_of_compare hc
      simp [this]
    | gt =>
      simp only [List.map_cons, List.mem_cons, ih]
      exact or_left_comm

variable [Std.TransOrd κ]

theorem increasing_addToGroup (key : κ) (value : τ) {groups : List (κ × List τ)}
    (h : Increasing groups) : Increasing (addToGroup key value groups) := by
  induction groups with
  | nil => exact List.pairwise_singleton _ _
  | cons g rest ih =>
    obtain ⟨k₀, values⟩ := g
    obtain ⟨hfirst, hrest⟩ := List.pairwise_cons.mp h
    rw [addToGroup]
    cases hc : compare key k₀ with
    | lt =>
      refine List.pairwise_cons.mpr ⟨fun g hg => ?_, h⟩
      rcases List.mem_cons.mp hg with rfl | hg
      · exact hc
      · exact Precedes.trans hc (hfirst g hg)
    | eq => exact List.pairwise_cons.mpr ⟨hfirst, hrest⟩
    | gt =>
      refine List.pairwise_cons.mpr ⟨fun g hg => ?_, ih hrest⟩
      rcases (mem_keys_addToGroup key value rest g.1).mp (List.mem_map_of_mem hg) with hk | hk
      · rw [hk]; exact Std.OrientedCmp.lt_of_gt hc
      · obtain ⟨g', hg', hk⟩ := List.mem_map.mp hk
        rw [← hk]; exact hfirst g' hg'

theorem mem_addToGroup (key : κ) (value : τ) (f : κ → List τ) {groups : List (κ × List τ)}
    (h : Increasing groups) (hf : ∀ g ∈ groups, g.2 = f g.1)
    (hk : key ∉ groups.map Prod.fst → f key = []) (g : κ × List τ) :
    g ∈ addToGroup key value groups ↔ g = (key, f key ++ [value]) ∨ g.1 ≠ key ∧ g ∈ groups := by
  induction groups with
  | nil => simp [addToGroup, hk]
  | cons g₀ rest ih =>
    obtain ⟨k₀, values⟩ := g₀
    obtain ⟨hfirst, hrest⟩ := List.pairwise_cons.mp h
    rw [addToGroup]
    cases hc : compare key k₀ with
    | lt =>
      -- the key is new, since it precedes all there are
      have hnew : ∀ g ∈ (k₀, values) :: rest, g.1 ≠ key := by
        intro g hg
        rcases List.mem_cons.mp hg with rfl | hg
        · exact (Precedes.ne hc).symm
        · exact (Precedes.ne (Precedes.trans hc (hfirst g hg))).symm
      have hnil : f key = [] := hk fun hm => by
        obtain ⟨g, hg, he⟩ := List.mem_map.mp hm
        exact hnew g hg he
      rw [hnil, List.nil_append, List.mem_cons]
      exact or_congr_right ⟨fun hg => ⟨hnew g hg, hg⟩, And.right⟩
    | eq =>
      have := Std.LawfulEqCmp.eq_of_compare hc
      subst this
      have hv : values = f key := hf _ (List.mem_cons_self ..)
      subst hv
      have hrest' : ∀ g ∈ rest, g.1 ≠ key := fun g hg => (Precedes.ne (hfirst g hg)).symm
      simp only [List.mem_cons]
      constructor
      · rintro (hg | hg)
        · exact Or.inl hg
        · exact Or.inr ⟨hrest' g hg, Or.inr hg⟩
      · rintro (hg | ⟨hn, rfl | hg⟩)
        · exact Or.inl hg
        · exact absurd rfl hn
        · exact Or.inr hg
    | gt =>
      have hne : k₀ ≠ key := Precedes.ne (Std.OrientedCmp.lt_of_gt hc)
      have hk' : key ∉ rest.map Prod.fst → f key = [] := fun hm => hk (by simp [hne.symm, hm])
      rw [List.mem_cons, ih hrest (fun g hg => hf g (List.mem_cons_of_mem _ hg)) hk', List.mem_cons]
      constructor
      · rintro (rfl | hg | ⟨hn, hg⟩)
        · exact Or.inr ⟨hne, Or.inl rfl⟩
        · exact Or.inl hg
        · exact Or.inr ⟨hn, Or.inr hg⟩
      · rintro (hg | ⟨hn, hg | hg⟩)
        · exact Or.inr (Or.inl hg)
        · exact Or.inl hg
        · exact Or.inr (Or.inr ⟨hn, hg⟩)

variable [DecidableEq κ]

structure Groups (key : α → κ) (value : α → τ) (items : List α) (groups : List (κ × List τ)) :
    Prop where
  increasing : Increasing groups
  mem_iff : ∀ k values,
    (k, values) ∈ groups ↔ k ∈ items.map key ∧ values = valuesAt key value items k

theorem Groups.snoc {key : α → κ} {value : α → τ} {items : List α} {groups : List (κ × List τ)}
    (h : Groups key value items groups) (a : α) :
    Groups key value (items ++ [a]) (addToGroup (key a) (value a) groups) where
  increasing := increasing_addToGroup _ _ h.increasing
  mem_iff k values := by
    have hf : ∀ g ∈ groups, g.2 = valuesAt key value items g.1 := fun g hg =>
      ((h.mem_iff g.1 g.2).mp hg).2
    have hk : key a ∉ groups.map Prod.fst → valuesAt key value items (key a) = [] := by
      intro hm
      refine valuesAt_eq_nil fun hi => hm ?_
      exact List.mem_map.mpr ⟨_, (h.mem_iff _ _).mpr ⟨hi, rfl⟩, rfl⟩
    rw [mem_addToGroup _ _ _ h.increasing hf hk, valuesAt_snoc, List.map_append, List.mem_append,
      h.mem_iff]
    by_cases hka : key a = k
    · subst hka
      simp
    · simp [hka, Ne.symm hka]

theorem groups_group (key : α → κ) (value : α → τ) (items : List α) :
    Groups key value items (group key value items) := by
  induction items using List.reverseRec with
  | nil => exact ⟨List.Pairwise.nil, by simp [group]⟩
  | append_singleton items a ih =>
    have := ih.snoc a
    rwa [group, List.foldl_append]

/-- The groups are the keys in increasing order, each with its values in order. -/
theorem group_eq (key : α → κ) (value : α → τ) (items : List α) :
    group key value items =
      (distinct (items.map key)).map fun k => (k, valuesAt key value items k) := by
  have h := groups_group key value items
  have hkeys : (group key value items).map Prod.fst = distinct (items.map key) := by
    refine eq_distinct (List.pairwise_map.mpr h.increasing) fun k => ?_
    rw [List.mem_map]
    constructor
    · rintro ⟨g, hg, rfl⟩
      exact ((h.mem_iff g.1 g.2).mp hg).1
    · intro hk
      exact ⟨_, (h.mem_iff _ _).mpr ⟨hk, rfl⟩, rfl⟩
  rw [← hkeys, List.map_map]
  conv_lhs => rw [← List.map_id (group key value items)]
  refine List.map_congr_left fun g hg => ?_
  exact Prod.ext rfl ((h.mem_iff g.1 g.2).mp hg).2

end

end TimingCharts
