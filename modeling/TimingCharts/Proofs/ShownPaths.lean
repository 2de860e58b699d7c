import TimingCharts.Rendering
import TimingCharts.Proofs.FileChanges
import TimingCharts.Proofs.ScratchPaths

/-!
# Shown paths

A path that begins with `.` is shown without it, and without the pieces at both ends that name
nothing. Such pieces are no steps, or steps that stay where they are, so that the text shown leads
where the path does. Main statement: `message_names_output`.
-/

namespace TimingCharts

namespace Path

/-! ## Leads -/

theorem here_notMem_filterMap (ps : List (List Char)) :
    Component.here ∉ ps.filterMap Component.ofPiece? := by
  intro h
  obtain ⟨piece, -, hpiece⟩ := List.mem_filterMap.mp h
  rw [Component.ofPiece?] at hpiece
  split at hpiece
  · cases hpiece
  · split at hpiece <;> cases hpiece

theorem head?_components_iff (p : Path) :
    p.components.head? = some .here ↔ (split p.text.toList).1 = .here := by
  rw [components_eq]
  generalize (split p.text.toList).2 = ps
  cases (split p.text.toList).1 with
  | root => simp [Lead.components]
  | here => simp [Lead.components]
  | plain =>
    have hnone : (ps.filterMap Component.ofPiece?).head? ≠ some .here := fun h =>
      here_notMem_filterMap _ (List.mem_of_head? h)
    simpa [Lead.components] using hnone

theorem isAbsolute_iff (p : Path) : p.isAbsolute = true ↔ (split p.text.toList).1 = .root := by
  rw [isAbsolute, beq_iff_eq]
  unfold split
  split
  · next heq => simp [heq]
  · next heq => simp [heq]
  · next heq => simp [heq]
  · next hroot _ _ =>
    have hhead : p.text.toList.head? ≠ some '/' := fun h => by
      obtain ⟨rest, hrest⟩ := List.head?_eq_some_iff.mp h
      exact hroot rest hrest
    simpa using hhead

theorem dropWhile_here {cs : List Component} (h : cs.head? ≠ some .here) :
    cs.dropWhile (· = .here) = cs := by
  cases cs with
  | nil => rfl
  | cons c cs => exact List.dropWhile_cons_of_neg (by simpa using h)

/-! ## Pieces put together -/

theorem intercalate_pieces (text : List Char) : ['/'].intercalate (pieces text) = text := by
  induction text with
  | nil => rfl
  | cons c text ih =>
    obtain ⟨p, ps, hp⟩ := List.exists_cons_of_ne_nil (pieces_ne_nil text)
    rw [hp] at ih
    rw [pieces, hp]
    split
    · next hc => rw [List.intercalate_cons_cons, ih, hc]; rfl
    · rw [List.modifyHead_cons, ← ih]
      cases ps with
      | nil => simp
      | cons q qs => simp [List.intercalate_cons_cons]

theorem prefix_intercalate (ps back : List (List Char)) :
    ['/'].intercalate ps <+: ['/'].intercalate (ps ++ back) := by
  induction back using List.reverseRecOn with
  | nil => simp
  | append_singleton back x ih =>
    rw [← List.append_assoc]
    rcases eq_or_ne (ps ++ back) [] with hnil | hne
    · rw [(List.append_eq_nil_iff.mp hnil).1]
      exact List.nil_prefix
    · rw [intercalate_snoc hne]
      exact ih.trans (List.prefix_append _ _)

theorem suffix_intercalate (front ps : List (List Char)) :
    ['/'].intercalate ps <:+ ['/'].intercalate (front ++ ps) := by
  induction front with
  | nil => exact List.suffix_rfl
  | cons x front ih =>
    refine ih.trans ?_
    rw [List.cons_append]
    rcases eq_or_ne (front ++ ps) [] with hnil | hne
    · rw [hnil]
      exact List.nil_suffix
    · rw [List.intercalate_cons_of_ne_nil hne]
      exact List.suffix_append _ _

theorem infix_intercalate {ps qs : List (List Char)} (h : qs <:+: ps) :
    ['/'].intercalate qs <:+: ['/'].intercalate ps := by
  obtain ⟨front, back, rfl⟩ := h
  exact (suffix_intercalate front qs).isInfix.trans (prefix_intercalate (front ++ qs) back).isInfix

theorem intercalate_split_suffix {text : List Char} (h : (split text).1 = .here) :
    ['/'].intercalate (split text).2 <:+ text := by
  unfold split at h ⊢
  split
  · cases h
  · exact List.nil_suffix
  · next rest =>
    rw [intercalate_pieces]
    exact ⟨['.', '/'], rfl⟩
  · next hroot hdot hhere =>
    split at h
    · next rest => exact absurd rfl (hroot rest)
    · exact absurd rfl hdot
    · next rest => exact absurd rfl (hhere rest)
    · cases h

/-! ## What is left out -/

/-- The path that is read off the text shown. -/
def ofShown (p : Path) : Path := ⟨p.shown⟩

def shownPieces (p : Path) : List (List Char) :=
  (trimEnd (split p.text.toList).2).dropWhile isFiller

theorem ofShown_of_ne_here {p : Path} (h : (split p.text.toList).1 ≠ .here) : p.ofShown = p := by
  rw [ofShown, shown]
  generalize split p.text.toList = parts at h
  obtain ⟨lead, ps⟩ := parts
  cases lead with
  | here => exact absurd rfl h
  | root => rfl
  | plain => rfl

theorem toList_ofShown {p : Path} (h : (split p.text.toList).1 = .here) :
    p.ofShown.text.toList = ['/'].intercalate p.shownPieces := by
  rw [ofShown, shown, shownPieces]
  generalize split p.text.toList = parts at h
  obtain ⟨lead, ps⟩ := parts
  obtain rfl : lead = .here := h
  exact String.toList_ofList

theorem exists_fillers (p : Path) : ∃ front back, (∀ x ∈ front ++ back, isFiller x = true) ∧
    (split p.text.toList).2 = front ++ p.shownPieces ++ back := by
  refine ⟨(trimEnd (split p.text.toList).2).takeWhile isFiller,
    (split p.text.toList).2.rtakeWhile isFiller, fun x hx => ?_, ?_⟩
  · rcases List.mem_append.mp hx with hx | hx
    · exact List.mem_takeWhile_imp hx
    · exact List.mem_rtakeWhile_imp hx
  · rw [shownPieces, List.takeWhile_append_dropWhile, trimEnd_eq, List.rdropWhile_append_rtakeWhile]

section
variable {fillers : List (List Char)} (h : ∀ x ∈ fillers, isFiller x = true)
include h

theorem filterMap_fillers : fillers.filterMap Component.ofPiece? = [] := by
  rw [List.filterMap_eq_nil_iff]
  intro x hx
  rw [Component.ofPiece?, if_pos (h x hx)]

theorem steps_fillers : ∀ step ∈ fillers.filter (· ≠ []), step = ['.'] := by
  intro step hstep
  obtain ⟨hmem, hne⟩ := List.mem_filter.mp hstep
  have hfiller := h step hmem
  rw [isFiller, Bool.or_eq_true, beq_iff_eq, beq_iff_eq] at hfiller
  exact hfiller.resolve_left (of_decide_eq_true hne)

end

/-! ## The path that is shown -/

section
variable {p : Path} (here : (split p.text.toList).1 = .here)
include here

theorem components_of_here :
    p.components = .here :: p.shownPieces.filterMap Component.ofPiece? := by
  obtain ⟨front, back, hfillers, hps⟩ := exists_fillers p
  have hfront := filterMap_fillers fun x hx => hfillers x (List.mem_append_left _ hx)
  have hback := filterMap_fillers fun x hx => hfillers x (List.mem_append_right _ hx)
  rw [components_eq, here, hps, List.filterMap_append, List.filterMap_append, hfront, hback,
    List.nil_append, List.append_nil]
  rfl

theorem infix_ofShown : p.ofShown.text.toList <:+: p.text.toList := by
  have hpart : p.shownPieces <:+: (split p.text.toList).2 :=
    (List.dropWhile_suffix isFiller).isInfix.trans (List.rdropWhile_prefix isFiller _).isInfix
  rw [toList_ofShown here]
  exact (infix_intercalate hpart).trans (intercalate_split_suffix here).isInfix

end

section
variable {p : Path} {name : List Char} (h : p.fileName? = some name)
include h

theorem splits_shownPieces : Splits .plain p.shownPieces := by
  constructor
  · intro x hx
    have hmem := (List.dropWhile_suffix isFiller).subset hx
    exact (splits_of_fileName h).slash x ((List.rdropWhile_prefix isFiller _).subset hmem)
  · intro _ x hx
    have hhead := List.head?_dropWhile_not isFiller (trimEnd (split p.text.toList).2)
    rw [Option.mem_def, shownPieces] at hx
    rw [hx] at hhead
    exact hhead

section
variable (here : (split p.text.toList).1 = .here)
include here

theorem exists_shownPieces : ∃ init, p.shownPieces = init ++ [name] := by
  have hlast : (Component.here :: p.shownPieces.filterMap Component.ofPiece?).getLast? =
      some (.name name) := by
    rw [← components_of_here here, components_eq_parent h, List.getLast?_concat]
  rcases List.eq_nil_or_concat p.shownPieces with hnil | ⟨init, x, hx⟩
  · rw [hnil] at hlast
    cases hlast
  rw [List.concat_eq_append] at hx
  refine ⟨init, ?_⟩
  have hsuffix : init ++ [x] <:+ trimEnd (split p.text.toList).2 :=
    hx ▸ List.dropWhile_suffix isFiller
  obtain ⟨front, hfront⟩ := hsuffix
  have hfiller : isFiller x = false := isFiller_getLast_trimEnd (by rw [← hfront]; simp)
  obtain ⟨c, hc⟩ := exists_component hfiller
  rw [hx, List.filterMap_append, List.filterMap_cons, hc, List.filterMap_nil, ← List.cons_append,
    List.getLast?_concat] at hlast
  rw [Option.some.inj hlast] at hc
  rw [hx, (eq_of_ofPiece_eq_name hc).1]

theorem split_ofShown : split p.ofShown.text.toList = (.plain, p.shownPieces) := by
  obtain ⟨init, hinit⟩ := exists_shownPieces h here
  rw [toList_ofShown here]
  exact split_joined (by rw [hinit]; simp) (splits_shownPieces h)

theorem exists_toList_ofShown : ∃ before, p.ofShown.text.toList = before ++ name := by
  obtain ⟨init, hinit⟩ := exists_shownPieces h here
  rw [toList_ofShown here, hinit]
  exact exists_joined_concat .plain init name

theorem exists_steps : ∃ front init back, (∀ step ∈ front ++ back, step = ['.']) ∧
    p.steps = front ++ (init ++ [name]) ++ back ∧ p.ofShown.steps = init ++ [name] := by
  obtain ⟨front, back, hfillers, hps⟩ := exists_fillers p
  obtain ⟨init, hinit⟩ := exists_shownPieces h here
  have hname : [name].filter (· ≠ []) = [name] := by
    rw [List.filter_cons_of_pos (by simpa using (ne_of_fileName h).1), List.filter_nil]
  refine ⟨['.'] :: front.filter (· ≠ []), init.filter (· ≠ []), back.filter (· ≠ []), ?_, ?_, ?_⟩
  · have hdots := steps_fillers hfillers
    rw [List.filter_append] at hdots
    exact List.forall_mem_cons.mpr ⟨rfl, hdots⟩
  · rw [steps, steps_split, here, if_pos rfl, hps, hinit, List.filter_append, List.filter_append,
      List.filter_append, hname]
    rfl
  · rw [steps, steps_split, split_ofShown h here, if_neg (by simp), hinit, List.filter_append, hname]
    rfl

end

theorem components_ofShown : p.ofShown.components = p.components.dropWhile (· = .here) := by
  by_cases here : (split p.text.toList).1 = .here
  · have hnone := here_notMem_filterMap p.shownPieces
    rw [components_eq, split_ofShown h here, components_of_here here,
      List.dropWhile_cons_of_pos (by simp),
      dropWhile_here fun hhead => hnone (List.mem_of_head? hhead)]
    rfl
  · rw [ofShown_of_ne_here here, dropWhile_here (mt (head?_components_iff p).mp here)]

theorem head?_components_ofShown : p.ofShown.components.head? ≠ some .here := by
  by_cases here : (split p.text.toList).1 = .here
  · simp [head?_components_iff, split_ofShown h here]
  · rw [ofShown_of_ne_here here]
    exact mt (head?_components_iff p).mp here

theorem isAbsolute_ofShown : p.ofShown.isAbsolute = p.isAbsolute := by
  by_cases here : (split p.text.toList).1 = .here
  · rw [Bool.eq_iff_iff, isAbsolute_iff, isAbsolute_iff, split_ofShown h here, here]
    simp
  · rw [ofShown_of_ne_here here]

end

end Path

namespace Files

/-! ## Where the path that is shown leads -/

theorem walk_append (files : Files) (first : Location) (before after : List (List Char)) :
    files.walk first (before ++ after) =
      (files.walk first before).bind fun directory => files.walk directory after :=
  List.foldlM_append

theorem walk_here (files : Files) {steps : List (List Char)} (h : ∀ step ∈ steps, step = ['.']) :
    ∀ directory, files.walk directory steps = .ok directory := by
  induction steps with
  | nil => exact fun _ => rfl
  | cons step steps ih =>
    obtain ⟨rfl, hsteps⟩ := List.forall_mem_cons.mp h
    exact ih hsteps

theorem walk_between (files : Files) (first : Location) {front back : List (List Char)}
    (h : ∀ step ∈ front ++ back, step = ['.']) (steps : List (List Char)) :
    files.walk first (front ++ steps ++ back) = files.walk first steps := by
  have hfront := files.walk_here fun step hs => h step (List.mem_append_left _ hs)
  have hback := files.walk_here fun step hs => h step (List.mem_append_right _ hs)
  rw [walk_append, walk_append, hfront, funext hback]
  exact bind_pure (files.walk first steps)

section
variable {name : List Char} (h₁ : name ≠ ['.']) (h₂ : name ≠ ['.', '.'])
include h₁ h₂

theorem enter_eq_ok {files : Files} {directory l : Location}
    (h : files.enter directory name = .ok l) :
    l = name :: directory ∧ ¬ (String.ofList name).utf8ByteSize > nameLimit := by
  rw [enter, if_neg h₁, if_neg h₂] at h
  split at h
  · cases h
  · next hsize =>
    split at h
    · exact ⟨(Except.ok.inj h).symm, hsize⟩
    · cases h
    · cases h

theorem walk_snoc_eq_ok {files : Files} {first l : Location} {steps : List (List Char)}
    (h : files.walk first (steps ++ [name]) = .ok l) : ∃ parent,
      files.walk first steps = .ok parent ∧ l = name :: parent ∧
        ¬ (String.ofList name).utf8ByteSize > nameLimit := by
  rw [walk_append] at h
  cases hparent : files.walk first steps with
  | error fault => rw [hparent] at h; cases h
  | ok parent =>
    rw [hparent] at h
    have henter : files.enter parent name = .ok l := by rwa [← bind_pure (files.enter parent name)]
    exact ⟨parent, rfl, enter_eq_ok h₁ h₂ henter⟩

theorem leads_of_walk {files : Files} {path : Path} {init : List (List Char)} {parent : Location}
    (hsteps : path.steps = init ++ [name]) (hrefusal : refusal? path = none)
    (hwalk : files.walk (files.start path) init = .ok parent)
    (hsize : ¬ (String.ofList name).utf8ByteSize > nameLimit) :
    files.Leads path (name :: parent) := by
  refine ⟨⟨parent, some name, name :: parent, path.text.toList.getLast? = some '/'⟩,
    resolve_eq_ok.mpr ⟨hrefusal, parent, ?_, ?_⟩, rfl⟩
  · rw [hsteps, List.dropLast_concat, hwalk]
  · rw [arrive_eq (by rw [hsteps, List.getLast?_concat]) h₁ h₂, if_neg hsize]

theorem exists_walk_of_leads {files : Files} {path : Path} {front init back : List (List Char)}
    {l : Location} (hdots : ∀ step ∈ front ++ back, step = ['.'])
    (hsteps : path.steps = front ++ (init ++ [name]) ++ back) (h : files.Leads path l) :
    ∃ parent, files.walk (files.start path) init = .ok parent ∧ l = name :: parent ∧
      ¬ (String.ofList name).utf8ByteSize > nameLimit := by
  obtain ⟨target, hresolve, rfl⟩ := h
  obtain ⟨-, directory, hwalk, harrive⟩ := resolve_eq_ok.mp hresolve
  rcases List.eq_nil_or_concat back with rfl | ⟨back, x, rfl⟩
  · -- the name is the last step
    rw [List.append_nil, ← List.append_assoc] at hsteps
    rw [hsteps, List.dropLast_concat, ← List.append_nil (front ++ init),
      walk_between files _ hdots] at hwalk
    rw [arrive_eq (by rw [hsteps, List.getLast?_concat]) h₁ h₂] at harrive
    split at harrive
    · cases harrive
    · next hsize => exact ⟨directory, hwalk, by rw [← Except.ok.inj harrive], hsize⟩
  · -- the path goes on, and stays in the directory of that name
    rw [List.concat_eq_append, ← List.append_assoc] at hdots hsteps
    have hx : x = ['.'] := hdots x (by simp)
    rw [hsteps, List.dropLast_concat,
      walk_between files _ fun step hs => hdots step (List.mem_append_left _ hs)] at hwalk
    rw [arrive, hsteps, List.getLast?_concat, hx] at harrive
    obtain ⟨parent, hparent, rfl, hsize⟩ := walk_snoc_eq_ok h₁ h₂ hwalk
    exact ⟨parent, hparent, by rw [← Except.ok.inj harrive], hsize⟩

end

theorem refusal?_of_part {p q : Path} (hpart : q.text.toList <:+: p.text.toList)
    (hne : q.text.toList ≠ []) (h : refusal? p = none) : refusal? q = none := by
  have hsize : q.text.utf8ByteSize ≤ p.text.utf8ByteSize := by
    obtain ⟨before, after, htext⟩ := hpart
    have hp : p.text = String.ofList before ++ q.text ++ String.ofList after := by
      rw [← String.toList_inj]
      simp [← htext]
    rw [hp, String.utf8ByteSize_append, String.utf8ByteSize_append]
    omega
  rw [refusal?] at h
  split at h
  · cases h
  next hnull =>
  split at h
  · cases h
  split at h
  · cases h
  next hlimit =>
  rw [refusal?, if_neg (mt (hpart.subset ·) hnull), if_neg hne, if_neg (by omega)]

theorem entry_of_leads {files : Files} {path : Path} {l : Location} {node : Node}
    (hslash : path.text.toList.getLast? ≠ some '/') (hleads : files.Leads path l)
    (hnode : files.get? l = some node) : files.entry path = .ok (l, node) := by
  obtain ⟨target, hresolve, rfl⟩ := hleads
  have hs : target.slash = false := by simp [resolve_slash hresolve, hslash]
  rw [entry_of_resolve hresolve, hnode]
  cases node with
  | directory => rfl
  | file content => simp [hs]
  | link dest => simp [hs]

theorem leads_ofShown {files : Files} {p : Path} {name : List Char} {l : Location}
    (h : p.fileName? = some name) (here : (Path.split p.text.toList).1 = .here)
    (hleads : files.Leads p l) : files.Leads p.ofShown l := by
  obtain ⟨front, init, back, hdots, hsteps, hshown⟩ := Path.exists_steps h here
  obtain ⟨hne, h₁, h₂⟩ := Path.ne_of_fileName h
  obtain ⟨before, htext⟩ := Path.exists_toList_ofShown h here
  obtain ⟨parent, hwalk, rfl, hsize⟩ := exists_walk_of_leads h₁ h₂ hdots hsteps hleads
  obtain ⟨target, hresolve, -⟩ := hleads
  have hstart : files.start p.ofShown = files.start p := by
    rw [start, start, Path.isAbsolute_ofShown h]
  have hrefusal := refusal?_of_part (Path.infix_ofShown here) (by simp [htext, hne])
    (resolve_eq_ok.mp hresolve).1
  exact leads_of_walk h₁ h₂ hshown hrefusal (by rw [hstart, hwalk]) hsize

theorem find_ofShown {files : Files} {p : Path} {name : List Char} (h : p.fileName? = some name)
    {found : Location × Node} (hfind : files.find p = .ok found) :
    files.find p.ofShown = .ok found := by
  by_cases here : (Path.split p.text.toList).1 = .here
  · obtain ⟨⟨l, node⟩, hentry⟩ := entry_of_find hfind
    obtain ⟨target, hresolve, hlocation, hnode⟩ := entry_eq_ok hentry
    have hleads := leads_ofShown h here ⟨target, hresolve, hlocation⟩
    obtain ⟨before, htext⟩ := Path.exists_toList_ofShown h here
    have hslash : p.ofShown.text.toList.getLast? ≠ some '/' := by
      rw [htext, List.getLast?_append_of_ne_nil _ (Path.ne_of_fileName h).1]
      exact fun hlast => Path.slash_not_mem_fileName h (List.mem_of_getLast? hlast)
    rw [find_of_entry hentry] at hfind
    rw [find_of_entry (entry_of_leads hslash hleads hnode), hfind]
  · rwa [Path.ofShown_of_ne_here here]

end Files

/-- The message for a chart names the file of the chart: the path it shows has the components of
the chart's path but for a `.` in front, starts from the same directory, and leads to what is found
at the chart's path. A path that does not begin with `.` is shown as it is. -/
theorem Rendered.message_names_output (r : Rendered) {name : List Char}
    (h : r.output.fileName? = some name) :
    ∃ shown : Path,
      r.message = "Plot saved as " ++ shown.text ++
        r.threads.elim "" (fun n => s!" (Threads detected: {n.toNat})") ∧
      shown.components = r.output.components.dropWhile (· = .here) ∧
      shown.components.head? ≠ some .here ∧ shown.isAbsolute = r.output.isAbsolute ∧
      (r.output.components.head? ≠ some .here → shown = r.output) ∧
      ∀ (files : Files) (found : Location × Node),
        files.find r.output = .ok found → files.find shown = .ok found := by
  refine ⟨r.output.ofShown, ?_, Path.components_ofShown h, Path.head?_components_ofShown h,
    Path.isAbsolute_ofShown h, fun hhead => ?_, fun _ _ => Files.find_ofShown h⟩
  · rw [Rendered.message]
    cases r.threads with
    | none => rfl
    | some n => rfl
  · exact Path.ofShown_of_ne_here (mt (Path.head?_components_iff _).mpr hhead)

theorem Rendered.message_names_output_spelled :
    let r : Rendered := ⟨.mergeSort, ⟨".//./out//a.png"⟩, some 8⟩
    let place : Location := [['a', '.', 'p', 'n', 'g'], ['o', 'u', 't']]
    let files : Files := ⟨[], [(place.tail, .directory), (place, .file (.bytes []))]⟩
    let shown : Path := ⟨"out//a.png"⟩
    r.output.fileName? = some "a.png".toList ∧
      r.message = "Plot saved as " ++ shown.text ++ " (Threads detected: 8)" ∧
      shown.components = r.output.components.dropWhile (· = .here) ∧
      files.find r.output = .ok (place, .file (.bytes [])) ∧
      files.find shown = .ok (place, .file (.bytes [])) := by
  intro r place files shown
  have hname : r.output.fileName? = some "a.png".toList := by decide
  have hmessage : r.message = "Plot saved as " ++ shown.text ++ " (Threads detected: 8)" := by
    decide
  have hresolve : files.resolve ⟨".//./out//a.png"⟩ =
      .ok ⟨place.tail, place.head?, place, false⟩ := by rfl
  have hfind : files.find r.output = .ok (place, .file (.bytes [])) :=
    Files.find_of_file ((Files.entry_of_resolve hresolve).trans rfl)
  obtain ⟨path, hmessage', hcomponents, -, -, -, hshown⟩ := r.message_names_output hname
  obtain rfl : shown = path := by
    have heq : _ = _ ++ " (Threads detected: 8)" := hmessage.symm.trans hmessage'
    rw [String.append_left_inj, String.append_right_inj] at heq
    exact congrArg Path.mk heq
  exact ⟨hname, hmessage, hcomponents, hfind, hshown files _ hfind⟩

end TimingCharts
