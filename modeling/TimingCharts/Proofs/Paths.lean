import Mathlib.Data.List.Basic
import TimingCharts.Path

/-!
# The steps of a path

Following a path takes one step for each piece that is not empty. A name that is joined to a
directory is one more step, and the scratch path of a chart ends in a step of its own.
-/

namespace TimingCharts.Path

/-! ## Pieces -/

theorem pieces_ne_nil (text : List Char) : pieces text ≠ [] := by
  induction text with
  | nil => simp [pieces]
  | cons c text ih =>
    obtain ⟨p, ps, hp⟩ := List.exists_cons_of_ne_nil ih
    rw [pieces, hp]
    split <;> simp

theorem pieces_append (a b : List Char) : pieces (a ++ '/' :: b) = pieces a ++ pieces b := by
  induction a with
  | nil => rfl
  | cons c a ih =>
    obtain ⟨p, ps, hp⟩ := List.exists_cons_of_ne_nil (pieces_ne_nil a)
    rw [List.cons_append, pieces, pieces, ih, hp]
    by_cases hc : c = '/' <;> simp [hc]

theorem pieces_of_plain {name : List Char} (h : '/' ∉ name) : pieces name = [name] := by
  induction name with
  | nil => rfl
  | cons c name ih =>
    have hc : c ≠ '/' := fun hc => h (by simp [hc])
    have hn : '/' ∉ name := fun hn => h (by simp [hn])
    rw [pieces, ih hn, if_neg hc]
    rfl

theorem slash_not_mem_of_mem_pieces {text piece : List Char} (h : piece ∈ pieces text) :
    '/' ∉ piece := by
  induction text generalizing piece with
  | nil =>
    have := List.mem_singleton.mp h
    simp [this]
  | cons c text ih =>
    obtain ⟨p, ps, hp⟩ := List.exists_cons_of_ne_nil (pieces_ne_nil text)
    rw [pieces, hp] at h
    rw [hp] at ih
    by_cases hc : c = '/'
    · rw [if_pos hc, List.mem_cons] at h
      rcases h with rfl | h
      · simp
      · exact ih h
    · rw [if_neg hc, List.modifyHead_cons, List.mem_cons] at h
      rcases h with rfl | h
      · have := ih (List.mem_cons_self ..)
        simp [this, Ne.symm hc]
      · exact ih (List.mem_cons_of_mem _ h)

/-! ## Steps -/

def steps (p : Path) : List (List Char) := (pieces p.text.toList).filter (· ≠ [])

def IsName (name : List Char) : Prop := name ≠ [] ∧ '/' ∉ name

instance (name : List Char) : Decidable (IsName name) :=
  inferInstanceAs (Decidable (name ≠ [] ∧ '/' ∉ name))

theorem IsName.steps_text {name : List Char} (h : IsName name) :
    (pieces name).filter (· ≠ []) = [name] := by
  rw [pieces_of_plain h.2]
  simp [h.1]

theorem isAbsolute_of_isName {name : String} (h : IsName name.toList) :
    (Path.mk name).isAbsolute = false := by
  obtain ⟨c, rest, hc⟩ := List.exists_cons_of_ne_nil h.1
  have := h.2
  rw [hc] at this
  rw [isAbsolute, hc, List.head?_cons]
  simp only [List.mem_cons, not_or] at this
  simp [Ne.symm this.1]

theorem toList_join (dir : Path) {name : String} (h : IsName name.toList) :
    (dir.join name).text.toList = dir.text.toList ++ name.toList ∧
        (dir.text.toList = [] ∨ ∃ a, dir.text.toList = a ++ ['/']) ∨
      (dir.text.toList ≠ [] ∧
        (dir.join name).text.toList = dir.text.toList ++ '/' :: name.toList) := by
  rw [join, isAbsolute_of_isName h]
  rcases List.eq_nil_or_concat dir.text.toList with hd | ⟨a, c, hd⟩
  · simp [hd]
  · rw [List.concat_eq_append] at hd
    by_cases hc : c = '/'
    · refine Or.inl ⟨?_, Or.inr ⟨a, by rw [hd, hc]⟩⟩
      simp [hd, hc]
    · refine Or.inr ⟨by simp [hd], ?_⟩
      simp [hd, hc]

theorem steps_join (dir : Path) {name : String} (h : IsName name.toList) :
    (dir.join name).steps = dir.steps ++ [name.toList] := by
  rw [steps, steps]
  rcases toList_join dir h with ⟨ht, hd | ⟨a, hd⟩⟩ | ⟨-, ht⟩
  · rw [ht, hd, List.nil_append, h.steps_text]
    rfl
  · rw [ht, hd, List.append_assoc, List.singleton_append, pieces_append, pieces_append,
      List.filter_append, h.steps_text, List.filter_append]
    simp [pieces]
  · rw [ht, pieces_append, List.filter_append, h.steps_text]

theorem isAbsolute_join (dir : Path) {name : String} (h : IsName name.toList) :
    (dir.join name).isAbsolute = dir.isAbsolute := by
  have hname := isAbsolute_of_isName h
  rw [isAbsolute] at hname
  rw [isAbsolute, isAbsolute]
  rcases toList_join dir h with ⟨ht, hd | ⟨a, hd⟩⟩ | ⟨hd, ht⟩
  · rw [ht, hd, List.nil_append, hname]
    rfl
  · rw [ht, hd]
    cases a <;> simp
  · obtain ⟨c, rest, hc⟩ := List.exists_cons_of_ne_nil hd
    rw [ht, hc]
    rfl

theorem getLast?_toList_join (dir : Path) {name : String} (h : IsName name.toList) :
    (dir.join name).text.toList.getLast? ≠ some '/' := by
  obtain ⟨a, c, hc⟩ := List.eq_nil_or_concat name.toList |>.resolve_left h.1
  have hslash : c ≠ '/' := by
    rintro rfl
    exact h.2 (by rw [hc]; simp)
  rw [List.concat_eq_append] at hc
  rcases toList_join dir h with ⟨ht, -⟩ | ⟨-, ht⟩
  · rw [ht, hc]
    simp [hslash]
  · have : dir.text.toList ++ '/' :: (a ++ [c]) = (dir.text.toList ++ '/' :: a) ++ [c] := by simp
    rw [ht, hc, this, List.getLast?_concat]
    simp [hslash]

/-! ## File names -/

theorem filterMap_ofPiece (ps : List (List Char)) :
    ps.filterMap Component.ofPiece? = (ps.filter (· ≠ [])).filterMap Component.ofPiece? := by
  rw [List.filterMap_filter]
  refine List.filterMap_congr fun p _ => ?_
  by_cases hp : p = []
  · simp [hp, Component.ofPiece?, isFiller]
  · simp [hp]

theorem ofPiece_eq_name {step : List Char} (h : step ≠ []) (h₁ : step ≠ ['.'])
    (h₂ : step ≠ ['.', '.']) : Component.ofPiece? step = some (.name step) := by
  simp [Component.ofPiece?, isFiller, h, h₁, h₂]

theorem eq_of_ofPiece_eq_name {piece name : List Char}
    (h : Component.ofPiece? piece = some (.name name)) : piece = name ∧ piece ≠ [] := by
  rw [Component.ofPiece?] at h
  split at h
  · cases h
  · next hf =>
    split at h
    · cases h
    · cases h
      exact ⟨rfl, fun he => hf (by simp [he, isFiller])⟩

theorem components_eq (p : Path) : p.components =
    (split p.text.toList).1.components ++ (split p.text.toList).2.filterMap Component.ofPiece? :=
  rfl

theorem name_not_mem_lead (lead : Lead) (name : List Char) :
    Component.name name ∉ lead.components := by
  cases lead <;> simp [Lead.components]

theorem steps_split (text : List Char) :
    (pieces text).filter (· ≠ []) =
      (if (split text).1 = .here then [['.']] else []) ++ (split text).2.filter (· ≠ []) := by
  unfold split
  split
  · rfl
  · rfl
  · rfl
  · rfl

theorem getLast?_components {p : Path} {step : List Char} (h : p.steps.getLast? = some step)
    (h₁ : step ≠ ['.']) (h₂ : step ≠ ['.', '.']) : p.components.getLast? = some (.name step) := by
  have hne : step ≠ [] := by
    have := List.mem_of_getLast? h
    simp only [steps, List.mem_filter, decide_eq_true_eq] at this
    exact this.2
  have hlast : ((split p.text.toList).2.filter (· ≠ [])).getLast? = some step := by
    rw [steps, steps_split, List.getLast?_append] at h
    cases hs : ((split p.text.toList).2.filter (· ≠ [])).getLast? with
    | some last =>
      rw [hs, Option.some_or] at h
      exact h
    | none =>
      rw [hs, Option.none_or] at h
      split at h
      · exact absurd (Option.some.inj h).symm h₁
      · cases h
  obtain ⟨before, hb⟩ := List.getLast?_eq_some_iff.mp hlast
  rw [components_eq, filterMap_ofPiece, hb, List.filterMap_append, List.filterMap_cons,
    ofPiece_eq_name hne h₁ h₂, List.filterMap_nil, ← List.append_assoc, List.getLast?_concat]

theorem fileName?_eq {p : Path} {step : List Char} (h : p.steps.getLast? = some step)
    (h₁ : step ≠ ['.']) (h₂ : step ≠ ['.', '.']) : p.fileName? = some step := by
  rw [fileName?, getLast?_components h h₁ h₂]

section
variable {p : Path} {name : List Char} (h : p.fileName? = some name)
include h

theorem mem_of_fileName :
    name ∈ (split p.text.toList).2 ∧ Component.ofPiece? name = some (.name name) := by
  have hmem : Component.name name ∈ p.components := by
    rw [fileName?] at h
    split at h
    · next hl => cases h; exact List.mem_of_getLast? hl
    · cases h
  rw [components_eq] at hmem
  rcases List.mem_append.mp hmem with hm | hm
  · exact absurd hm (name_not_mem_lead _ name)
  obtain ⟨piece, hp, he⟩ := List.mem_filterMap.mp hm
  obtain ⟨rfl, -⟩ := eq_of_ofPiece_eq_name he
  exact ⟨hp, he⟩

theorem ne_of_fileName : name ≠ [] ∧ name ≠ ['.'] ∧ name ≠ ['.', '.'] := by
  have he := (mem_of_fileName h).2
  refine ⟨(eq_of_ofPiece_eq_name he).2, ?_, ?_⟩
  · rintro rfl
    cases he
  · rintro rfl
    cases he

theorem slash_not_mem_fileName : '/' ∉ name := by
  have hpiece : name ∈ (pieces p.text.toList).filter (· ≠ []) := by
    rw [steps_split]
    exact List.mem_append_right _
      (List.mem_filter.mpr ⟨(mem_of_fileName h).1, by simpa using (ne_of_fileName h).1⟩)
  exact slash_not_mem_of_mem_pieces (List.mem_filter.mp hpiece).1

end

/-! ## Scratch paths -/

def scratchMark : List Char := ['.', 'p', 'a', 'r', 't', 'i', 'a', 'l', '-']

def scratchName (p : Path) : List Char := scratchMark ++ p.fileName?.getD []

theorem isName_scratchName (p : Path) : IsName p.scratchName := by
  have hmark : IsName scratchMark := by decide
  refine ⟨List.append_ne_nil_of_left_ne_nil hmark.1 _, fun h => ?_⟩
  rcases List.mem_append.mp h with h | h
  · exact hmark.2 h
  · cases hf : p.fileName? with
    | none => rw [hf] at h; cases h
    | some name => rw [hf] at h; exact slash_not_mem_fileName hf h

theorem exists_scratch_eq (p : Path) :
    ∃ dir : Path, p.scratch = dir.join (String.ofList p.scratchName) := by
  have hs : ".partial-" ++ String.ofList (p.fileName?.getD []) = String.ofList p.scratchName := by
    rw [scratchName, String.ofList_append]
    rfl
  rw [scratch, withFileName, hs]
  cases p.fileName? with
  | none => exact ⟨p, rfl⟩
  | some _ => exact ⟨p.parent, rfl⟩

theorem getLast?_steps_scratch (p : Path) : p.scratch.steps.getLast? = some p.scratchName := by
  obtain ⟨dir, hd⟩ := exists_scratch_eq p
  rw [hd, steps_join dir (by simpa using isName_scratchName p)]
  simp

theorem scratch_not_slash (p : Path) : p.scratch.text.toList.getLast? ≠ some '/' := by
  obtain ⟨dir, hd⟩ := exists_scratch_eq p
  rw [hd]
  exact getLast?_toList_join dir (by simpa using isName_scratchName p)

theorem scratchName_ne {p : Path} {name : List Char} (h : p.fileName? = some name) :
    p.scratchName ≠ name := by
  intro he
  have := congrArg List.length he
  rw [scratchName, h, List.length_append] at this
  simp [scratchMark] at this

end TimingCharts.Path
