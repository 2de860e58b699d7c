import Mathlib.Data.List.DropRight
import TimingCharts.Proofs.Paths

/-!
# Scratch paths

A path with a file name is its parent and that name, and its scratch path is the same parent and
the marked name. Main statement: `scratch_paths_apart`, a path and its scratch path are different
entries of one directory, and different paths have different scratch paths.
-/

namespace TimingCharts.Path

/-! ## Pieces put together -/

theorem intercalate_snoc {ps : List (List Char)} (hne : ps ≠ []) (x : List Char) :
    ['/'].intercalate (ps ++ [x]) = ['/'].intercalate ps ++ '/' :: x := by
  induction ps with
  | nil => exact absurd rfl hne
  | cons p ps ih =>
    cases ps with
    | nil => simp
    | cons q qs =>
      have := ih (by simp)
      rw [List.cons_append] at this
      rw [List.cons_append, List.cons_append, List.intercalate_cons_cons, this,
        List.intercalate_cons_cons, List.append_assoc, List.append_assoc, List.append_assoc]

theorem pieces_intercalate {ps : List (List Char)} (hne : ps ≠ []) (hs : ∀ p ∈ ps, '/' ∉ p) :
    pieces (['/'].intercalate ps) = ps := by
  induction ps with
  | nil => exact absurd rfl hne
  | cons p ps ih =>
    have hp := hs p List.mem_cons_self
    cases ps with
    | nil => rw [List.intercalate_singleton, pieces_of_plain hp]
    | cons q qs =>
      rw [List.intercalate_cons_cons, List.append_assoc, List.singleton_append, pieces_append,
        pieces_of_plain hp, ih (by simp) fun r hr => hs r (List.mem_cons_of_mem _ hr)]
      rfl

structure Splits (lead : Lead) (ps : List (List Char)) : Prop where
  slash : ∀ p ∈ ps, '/' ∉ p
  head : lead = .plain → ∀ p ∈ ps.head?, isFiller p = false

theorem split_of_plain {text : List Char} (h : ∀ p ∈ (pieces text).head?, isFiller p = false) :
    split text = (.plain, pieces text) := by
  unfold split
  split
  · exact absurd (h [] (by simp [pieces])) (by decide)
  · exact absurd (h ['.'] (by simp [pieces])) (by decide)
  · exact absurd (h ['.'] (by simp [pieces])) (by decide)
  · rfl

theorem split_joined {lead : Lead} {ps : List (List Char)} (hne : ps ≠ []) (h : Splits lead ps) :
    split (joined (lead, ps)) = (lead, ps) := by
  have hpieces := pieces_intercalate hne h.slash
  cases lead with
  | root => exact congrArg (Prod.mk _) hpieces
  | here =>
    obtain ⟨p, rest, rfl⟩ := List.exists_cons_of_ne_nil hne
    exact congrArg (Prod.mk _) hpieces
  | plain =>
    have hhead : ∀ p ∈ (pieces (['/'].intercalate ps)).head?, isFiller p = false := by
      rw [hpieces]
      exact h.head rfl
    have hsplit := split_of_plain hhead
    rw [hpieces] at hsplit
    exact hsplit

theorem joined_snoc (lead : Lead) {ps : List (List Char)} (hne : ps ≠ []) (x : List Char) :
    joined (lead, ps ++ [x]) = joined (lead, ps) ++ '/' :: x := by
  have hsnoc := intercalate_snoc hne x
  obtain ⟨p, rest, rfl⟩ := List.exists_cons_of_ne_nil hne
  cases lead with
  | root => exact congrArg (List.cons '/') hsnoc
  | here => exact congrArg (fun text => '.' :: '/' :: text) hsnoc
  | plain => exact hsnoc

theorem exists_joined_concat (lead : Lead) (ps : List (List Char)) (x : List Char) :
    ∃ before, joined (lead, ps ++ [x]) = before ++ x := by
  cases ps with
  | nil =>
    cases lead with
    | root => exact ⟨['/'], by simp [joined]⟩
    | here => exact ⟨['.', '/'], by simp [joined]⟩
    | plain => exact ⟨[], by simp [joined]⟩
  | cons p rest =>
    refine ⟨joined (lead, p :: rest) ++ ['/'], ?_⟩
    rw [joined_snoc lead (by simp), List.append_assoc, List.singleton_append]

/-! ## Pieces at the end -/

theorem trimEnd_eq (ps : List (List Char)) : trimEnd ps = ps.rdropWhile isFiller := rfl

theorem trimEnd_snoc {ps : List (List Char)} {x : List Char} (h : isFiller x = false) :
    trimEnd (ps ++ [x]) = ps ++ [x] :=
  List.rdropWhile_concat_neg isFiller ps x (by simp [h])

theorem trimEnd_trimEnd (ps : List (List Char)) : trimEnd (trimEnd ps) = trimEnd ps :=
  List.rdropWhile_idempotent isFiller ps

theorem isFiller_getLast_trimEnd {ps : List (List Char)} {x : List Char}
    (h : x ∈ (trimEnd ps).getLast?) : isFiller x = false := by
  obtain ⟨hne, rfl⟩ := List.mem_getLast?_eq_getLast h
  exact Bool.eq_false_iff.mpr (List.rdropWhile_last_not isFiller ps hne)

theorem exists_component {x : List Char} (hx : isFiller x = false) :
    ∃ c, Component.ofPiece? x = some c := by
  rw [Component.ofPiece?, hx, if_neg Bool.false_ne_true]
  split <;> exact ⟨_, rfl⟩

theorem filterMap_trimEnd (ps : List (List Char)) :
    (trimEnd ps).filterMap Component.ofPiece? = ps.filterMap Component.ofPiece? := by
  induction ps using List.reverseRecOn with
  | nil => rfl
  | append_singleton ps x ih =>
    rw [trimEnd_eq, List.rdropWhile_concat]
    split
    · next hx =>
      rw [← trimEnd_eq, ih, List.filterMap_append, List.filterMap_cons, Component.ofPiece?,
        if_pos hx]
      simp
    · rfl

theorem Splits.of_initial {lead : Lead} {ps qs : List (List Char)} (h : Splits lead ps)
    (hq : qs <+: ps) : Splits lead qs := by
  refine ⟨fun p hp => h.slash p (hq.subset hp), fun hl p hp => h.head hl p ?_⟩
  obtain ⟨rest, rfl⟩ := hq
  rw [List.head?_append, Option.mem_def.mp hp]
  rfl

theorem Splits.snoc {lead : Lead} {ps : List (List Char)} {x : List Char} (h : Splits lead ps)
    (hs : '/' ∉ x) (hx : isFiller x = false) : Splits lead (ps ++ [x]) := by
  constructor
  · intro p hp
    rcases List.mem_append.mp hp with hp | hp
    · exact h.slash p hp
    · rw [List.mem_singleton.mp hp]
      exact hs
  · intro hl p hp
    cases ps with
    | nil =>
      cases hp
      exact hx
    | cons q rest => exact h.head hl p hp

theorem head?_pieces_nil {text : List Char} (h : [] ∈ (pieces text).head?) :
    text = [] ∨ ∃ rest, text = '/' :: rest := by
  cases text with
  | nil => exact .inl rfl
  | cons c rest =>
    by_cases hc : c = '/'
    · exact .inr ⟨rest, by rw [hc]⟩
    · obtain ⟨p, ps, hp⟩ := List.exists_cons_of_ne_nil (pieces_ne_nil rest)
      rw [pieces, if_neg hc, hp] at h
      cases h

theorem splits_split {text : List Char} (hne : text ≠ []) :
    Splits (split text).1 (split text).2 := by
  unfold split
  split
  · exact ⟨fun p hp => slash_not_mem_of_mem_pieces hp, nofun⟩
  · exact ⟨nofun, nofun⟩
  · exact ⟨fun p hp => slash_not_mem_of_mem_pieces hp, nofun⟩
  · next hroot hdot hhere =>
    refine ⟨fun p hp => slash_not_mem_of_mem_pieces hp, fun _ p hp => ?_⟩
    -- a first piece that names nothing would have been taken for a lead
    obtain ⟨c, rest, rfl⟩ := List.exists_cons_of_ne_nil hne
    have hc : c ≠ '/' := fun hc => hroot rest (by rw [hc])
    obtain ⟨q, qs, hq⟩ := List.exists_cons_of_ne_nil (pieces_ne_nil rest)
    rw [pieces, if_neg hc, hq] at hp
    cases hp
    rw [isFiller, Bool.or_eq_false_iff, beq_eq_false_iff_ne, beq_eq_false_iff_ne]
    refine ⟨List.cons_ne_nil _ _, fun heq => ?_⟩
    obtain ⟨rfl, rfl⟩ := List.cons.inj heq
    have hnil : [] ∈ (pieces rest).head? := by
      rw [hq]
      rfl
    rcases head?_pieces_nil hnil with rfl | ⟨r, rfl⟩
    · exact hdot rfl
    · exact hhere r rfl

/-! ## Parents -/

theorem componentsOf_joined {lead : Lead} {ps : List (List Char)} (h : Splits lead ps) :
    componentsOf (joined (lead, ps)) = lead.components ++ ps.filterMap Component.ofPiece? := by
  rcases eq_or_ne ps [] with rfl | hne
  · cases lead <;> rfl
  · rw [componentsOf, split_joined hne h]

def parentPieces (p : Path) : List (List Char) :=
  trimEnd (trimEnd (split p.text.toList).2).dropLast

theorem toList_parent (p : Path) :
    p.parent.text.toList = joined ((split p.text.toList).1, p.parentPieces) := String.toList_ofList

section
variable {p : Path} {name : List Char}

theorem splits_of_fileName (h : p.fileName? = some name) :
    Splits (split p.text.toList).1 (split p.text.toList).2 := by
  refine splits_split fun htext => ?_
  rw [fileName?, components, htext] at h
  cases h

theorem parentPieces_prefix (p : Path) : p.parentPieces <+: (split p.text.toList).2 :=
  (List.rdropWhile_prefix _ _).trans ((List.dropLast_prefix _).trans (List.rdropWhile_prefix _ _))

theorem components_parent (h : p.fileName? = some name) :
    p.parent.components =
      (split p.text.toList).1.components ++ p.parentPieces.filterMap Component.ofPiece? := by
  rw [components, toList_parent]
  exact componentsOf_joined ((splits_of_fileName h).of_initial p.parentPieces_prefix)

theorem components_eq_parent (h : p.fileName? = some name) :
    p.components = p.parent.components ++ [.name name] := by
  have hpieces : p.parentPieces.filterMap Component.ofPiece? =
      (trimEnd (split p.text.toList).2).dropLast.filterMap Component.ofPiece? := filterMap_trimEnd _
  have hlast : p.components.getLast? = some (.name name) := by
    rw [fileName?] at h
    split at h
    · next hl => rw [hl, Option.some.inj h]
    · cases h
  rw [components_eq, ← filterMap_trimEnd] at hlast ⊢
  rw [components_parent h, hpieces]
  rcases List.eq_nil_or_concat (trimEnd (split p.text.toList).2) with hnil | ⟨init, x, hx⟩
  · -- a lead is not a name
    rw [hnil, List.filterMap_nil, List.append_nil] at hlast
    exact absurd (List.mem_of_getLast? hlast) (name_not_mem_lead _ _)
  · rw [List.concat_eq_append] at hx
    have hfiller : isFiller x = false := isFiller_getLast_trimEnd (by rw [hx]; simp)
    obtain ⟨c, hc⟩ := exists_component hfiller
    have hsingle : [x].filterMap Component.ofPiece? = [c] := by rw [List.filterMap_cons, hc]; rfl
    rw [hx, List.filterMap_append, hsingle, ← List.append_assoc, List.getLast?_concat] at hlast
    rw [hx, List.dropLast_concat, List.filterMap_append, hsingle, Option.some.inj hlast,
      List.append_assoc]

end

/-! ## Scratch paths -/

theorem toList_join_joined {lead : Lead} {ps : List (List Char)} {name : String}
    (hs : Splits lead ps) (hlast : ∀ x ∈ ps.getLast?, isFiller x = false)
    (hname : IsName name.toList) :
    ((Path.mk (String.ofList (joined (lead, ps)))).join name).text.toList =
      joined (lead, ps ++ [name.toList]) := by
  rw [join, isAbsolute_of_isName hname, if_neg Bool.false_ne_true, String.toList_ofList]
  rcases List.eq_nil_or_concat ps with rfl | ⟨init, x, rfl⟩
  · cases lead <;> simp [joined]
  · rw [List.concat_eq_append] at hs hlast ⊢
    have hx := hlast x (by simp)
    obtain ⟨before, hbefore⟩ := exists_joined_concat lead init x
    obtain ⟨a, c, hc⟩ := (List.eq_nil_or_concat x).resolve_left fun h => by rw [h] at hx; cases hx
    rw [List.concat_eq_append] at hc
    have hslash : c ≠ '/' := by
      rintro rfl
      exact hs.slash x (by simp) (by rw [hc]; simp)
    have hend : (joined (lead, init ++ [x])).getLast?.all (· == '/') = false := by
      rw [hbefore, hc, ← List.append_assoc, List.getLast?_concat]
      simpa using hslash
    have hne : init ++ [x] ≠ [] := by simp
    rw [hend, if_neg Bool.false_ne_true, joined_snoc lead hne]
    simp

section
variable {p : Path} {name : List Char}

theorem split_scratch (h : p.fileName? = some name) :
    split p.scratch.text.toList =
      ((split p.text.toList).1, p.parentPieces ++ [p.scratchName]) := by
  have hs := (splits_of_fileName h).of_initial p.parentPieces_prefix
  have hname := isName_scratchName p
  have hmark : isFiller p.scratchName = false := rfl
  have hscratch : p.scratch = p.parent.join (String.ofList p.scratchName) := by
    rw [scratch, withFileName, h, scratchName, h, String.ofList_append]
    rfl
  have htext : p.scratch.text.toList =
      joined ((split p.text.toList).1, p.parentPieces ++ [p.scratchName]) := by
    rw [hscratch]
    have hisName : IsName (String.ofList p.scratchName).toList := by rwa [String.toList_ofList]
    have := toList_join_joined hs (fun x hx => isFiller_getLast_trimEnd hx) hisName
    rwa [String.toList_ofList] at this
  rw [htext, split_joined (by simp) (hs.snoc hname.2 hmark)]

theorem parent_scratch (h : p.fileName? = some name) : p.scratch.parent = p.parent := by
  have hpieces : p.scratch.parentPieces = p.parentPieces := by
    rw [parentPieces, split_scratch h, trimEnd_snoc rfl, List.dropLast_concat]
    exact trimEnd_trimEnd _
  have htext := toList_parent p.scratch
  rw [hpieces, split_scratch h, ← toList_parent] at htext
  exact congrArg Path.mk (String.toList_inj.mp htext)

theorem fileName?_scratch (p : Path) : p.scratch.fileName? = some p.scratchName :=
  fileName?_eq (getLast?_steps_scratch p) nofun nofun

theorem components_scratch (h : p.fileName? = some name) :
    p.scratch.components = p.parent.components ++ [.name p.scratchName] := by
  rw [components_eq_parent (fileName?_scratch p), parent_scratch h]

end

/-- A path and its scratch path are different entries of one directory, and two paths have the same
scratch path only if they are the same. -/
theorem scratch_paths_apart :
    (∀ (p : Path) (name : List Char), p.fileName? = some name →
      p.scratch.parent = p.parent ∧ p.scratch.components ≠ p.components) ∧
    ∀ (p q : Path) (name name' : List Char), p.fileName? = some name → q.fileName? = some name' →
      p.scratch.components = q.scratch.components → p.components = q.components := by
  constructor
  · intro p name h
    refine ⟨parent_scratch h, fun heq => ?_⟩
    rw [components_scratch h, components_eq_parent h] at heq
    have hlast := List.append_cancel_left heq
    exact scratchName_ne h (Component.name.inj (List.cons.inj hlast).1)
  · intro p q name name' h h' heq
    rw [components_scratch h, components_scratch h'] at heq
    obtain ⟨hparent, hlast⟩ := List.append_inj' heq rfl
    have hmarked := Component.name.inj (List.cons.inj hlast).1
    rw [scratchName, scratchName, h, h'] at hmarked
    have hname : name = name' := List.append_cancel_left hmarked
    rw [components_eq_parent h, components_eq_parent h', hparent, hname]

theorem scratch_paths_apart_spelled :
    let p : Path := ⟨"./out//a.png/"⟩
    let q : Path := ⟨"./out/./a.png"⟩
    p.fileName? = some "a.png".toList ∧ q.fileName? = some "a.png".toList ∧
      p.scratch = ⟨"./out/.partial-a.png"⟩ ∧
      (p.scratch.parent = p.parent ∧ p.scratch.components ≠ p.components) ∧
      p.scratch.components = q.scratch.components ∧ p.components = q.components := by
  intro p q
  have hp : p.fileName? = some "a.png".toList := by decide
  have hq : q.fileName? = some "a.png".toList := by decide
  have heq : p.scratch.components = q.scratch.components := by decide
  exact ⟨hp, hq, by decide, scratch_paths_apart.1 p _ hp, heq,
    scratch_paths_apart.2 p q _ _ hp hq heq⟩

end TimingCharts.Path
