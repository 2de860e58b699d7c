import TimingCharts.Files
import TimingCharts.Proofs.Paths

/-!
# Changes to files

What each operation on files changes and what it leaves alone. No operation makes or removes a
directory, so a path leads where it led before (`Files.SameTree`), and all else is a matter of
the nodes at a few locations.
-/

namespace TimingCharts.Files

/-! ## Nodes -/

theorem get?_of_ne_nil (files : Files) {l : Location} (h : l ≠ []) :
    files.get? l = files.nodes.lookup l := by
  cases l with
  | nil => exact absurd rfl h
  | cons _ _ => rfl

theorem lookup_filter_ne (nodes : List (Location × Node)) (l l' : Location) :
    (nodes.filter (·.1 != l)).lookup l' = if l' = l then none else nodes.lookup l' := by
  induction nodes with
  | nil => simp
  | cons n rest ih =>
    obtain ⟨k, node⟩ := n
    rw [List.filter_cons, List.lookup_cons]
    by_cases hk : k = l
    · rw [if_neg (by simp [hk]), ih]
      by_cases hl : l' = l
      · rw [if_pos hl, if_pos hl]
      · have : (l' == k) = false := by simp [hk, hl]
        rw [if_neg hl, if_neg hl, this]
    · rw [if_pos (by simpa using hk), List.lookup_cons, ih]
      by_cases hl : l' = k
      · have : l' ≠ l := hl ▸ hk
        simp [hl, hk]
      · have : (l' == k) = false := by simp [hl]
        rw [this]

theorem get?_erase_of_ne (files : Files) {l l' : Location} (h : l' ≠ l) :
    (files.erase l).get? l' = files.get? l' := by
  cases l' with
  | nil => rfl
  | cons _ _ =>
    rw [get?_of_ne_nil _ (by simp), get?_of_ne_nil _ (by simp), erase, lookup_filter_ne, if_neg h]

theorem get?_erase_self (files : Files) {l : Location} (h : l ≠ []) : (files.erase l).get? l = none := by
  rw [get?_of_ne_nil _ h, erase, lookup_filter_ne, if_pos rfl]

theorem get?_insert_of_ne (files : Files) (node : Node) {l l' : Location} (h : l' ≠ l) :
    (files.insert l node).get? l' = files.get? l' := by
  cases l' with
  | nil => rfl
  | cons _ _ =>
    have hb : ∀ a b : Location, a ≠ b → (a == b) = false := fun a b hab => by simp [hab]
    rw [← get?_erase_of_ne files h, get?_of_ne_nil _ (by simp), get?_of_ne_nil _ (by simp), insert,
      List.lookup_cons, hb _ _ h]

theorem get?_insert_self (files : Files) (node : Node) {l : Location} (h : l ≠ []) :
    (files.insert l node).get? l = some node := by
  rw [get?_of_ne_nil _ h, insert, List.lookup_cons]
  simp

/-! ## Where paths lead -/

/-- Why a path cannot be followed whatever the files are. -/
def refusal? (path : Path) : Option Fault :=
  if '\x00' ∈ path.text.toList then some .nullInPath
  else if path.text.toList = [] then some .notFound
  else if path.text.utf8ByteSize > pathLimit then some .nameTooLong
  else none

def start (files : Files) (path : Path) : Location :=
  if path.isAbsolute then [] else files.workingDirectory

def walk (files : Files) (first : Location) (steps : List (List Char)) : Except Fault Location :=
  steps.foldlM files.enter first

def arrive (path : Path) (directory : Location) : Except Fault Target :=
  let slash := path.text.toList.getLast? = some '/'
  match path.steps.getLast? with
  | none => .ok ⟨directory, none, directory, slash⟩
  | some step =>
    if step = ['.'] then .ok ⟨directory, none, directory, slash⟩
    else if step = ['.', '.'] then .ok ⟨directory, none, directory.tail, slash⟩
    else if (String.ofList step).utf8ByteSize > nameLimit then .error .nameTooLong
    else .ok ⟨directory, some step, step :: directory, slash⟩

theorem resolve_eq (files : Files) (path : Path) :
    files.resolve path =
      match refusal? path with
      | some fault => .error fault
      | none => (files.walk (files.start path) path.steps.dropLast).bind (arrive path) := by
  unfold resolve refusal?
  by_cases h₁ : '\x00' ∈ path.text.toList
  · simp only [h₁, ite_true]
    rfl
  by_cases h₂ : path.text.toList = []
  · simp only [h₂]
    rfl
  by_cases h₃ : path.text.utf8ByteSize > pathLimit
  · simp only [h₁, h₂, h₃, ite_true, ite_false]
    rfl
  simp only [h₁, h₂, h₃, ite_false]
  rfl

theorem resolve_eq_ok {files : Files} {path : Path} {target : Target} :
    files.resolve path = .ok target ↔ refusal? path = none ∧
      ∃ directory, files.walk (files.start path) path.steps.dropLast = .ok directory ∧
        arrive path directory = .ok target := by
  rw [resolve_eq]
  cases refusal? path with
  | some fault => simp
  | none =>
    cases files.walk (files.start path) path.steps.dropLast with
    | error fault => simp [Except.bind]
    | ok directory => simp [Except.bind]

theorem arrive_eq_ok {path : Path} {directory : Location} {target : Target}
    (h : arrive path directory = .ok target) :
    target.slash = decide (path.text.toList.getLast? = some '/') ∧
      ∀ name, target.name = some name → path.steps.getLast? = some name ∧
        name ≠ ['.'] ∧ name ≠ ['.', '.'] ∧ target.location = name :: directory := by
  rw [arrive] at h
  cases hs : path.steps.getLast? with
  | none =>
    simp only [hs, Except.ok.injEq] at h
    subst h
    exact ⟨rfl, fun name hn => nomatch hn⟩
  | some step =>
    simp only [hs] at h
    by_cases h₁ : step = ['.']
    · rw [if_pos h₁, Except.ok.injEq] at h
      subst h
      exact ⟨rfl, fun name hn => nomatch hn⟩
    by_cases h₂ : step = ['.', '.']
    · rw [if_neg h₁, if_pos h₂, Except.ok.injEq] at h
      subst h
      exact ⟨rfl, fun name hn => nomatch hn⟩
    rw [if_neg h₁, if_neg h₂] at h
    split at h
    · cases h
    · rw [Except.ok.injEq] at h
      subst h
      refine ⟨rfl, fun name hn => ?_⟩
      rw [Option.some.injEq] at hn
      subst hn
      exact ⟨rfl, h₁, h₂, rfl⟩

theorem arrive_eq {path : Path} {step : List Char} (hs : path.steps.getLast? = some step)
    (h₁ : step ≠ ['.']) (h₂ : step ≠ ['.', '.']) (directory : Location) :
    arrive path directory =
      if (String.ofList step).utf8ByteSize > nameLimit then .error .nameTooLong
      else .ok ⟨directory, some step, step :: directory, path.text.toList.getLast? = some '/'⟩ := by
  rw [arrive, hs]
  dsimp only
  rw [if_neg h₁, if_neg h₂]

theorem arrive_of_name {path : Path} {directory : Location} {target : Target} {step : List Char}
    (hs : path.steps.getLast? = some step) (h₁ : step ≠ ['.']) (h₂ : step ≠ ['.', '.'])
    (h : arrive path directory = .ok target) : target.location = step :: directory := by
  rw [arrive_eq hs h₁ h₂] at h
  split at h
  · cases h
  · rw [Except.ok.injEq] at h
    subst h
    rfl

theorem resolve_slash {files : Files} {path : Path} {target : Target}
    (h : files.resolve path = .ok target) :
    target.slash = decide (path.text.toList.getLast? = some '/') := by
  obtain ⟨-, directory, -, ha⟩ := resolve_eq_ok.mp h
  exact (arrive_eq_ok ha).1

theorem resolve_name {files : Files} {path : Path} {target : Target} {name : List Char}
    (h : files.resolve path = .ok target) (hn : target.name = some name) :
    path.steps.getLast? = some name ∧ name ≠ ['.'] ∧ name ≠ ['.', '.'] ∧
      ∃ directory, target.location = name :: directory := by
  obtain ⟨-, directory, -, ha⟩ := resolve_eq_ok.mp h
  obtain ⟨hs, h₁, h₂, hl⟩ := (arrive_eq_ok ha).2 name hn
  exact ⟨hs, h₁, h₂, directory, hl⟩

def Leads (files : Files) (path : Path) (l : Location) : Prop :=
  ∃ target, files.resolve path = .ok target ∧ target.location = l

theorem Leads.unique {files : Files} {path : Path} {target : Target} {l : Location}
    (h : files.Leads path l) (hr : files.resolve path = .ok target) : l = target.location := by
  obtain ⟨target', hr', rfl⟩ := h
  rw [hr] at hr'
  rw [Except.ok.inj hr']

theorem Leads.head? {files : Files} {path : Path} {l : Location} {step : List Char}
    (h : files.Leads path l) (hs : path.steps.getLast? = some step) (h₁ : step ≠ ['.'])
    (h₂ : step ≠ ['.', '.']) : l.head? = some step := by
  obtain ⟨target, hr, rfl⟩ := h
  obtain ⟨-, directory, -, ha⟩ := resolve_eq_ok.mp hr
  rw [arrive_of_name hs h₁ h₂ ha, List.head?_cons]

/-! ## Files with the same directories -/

structure SameTree (before after : Files) : Prop where
  workingDirectory : after.workingDirectory = before.workingDirectory
  directories : ∀ l, after.get? l = some .directory ↔ before.get? l = some .directory

theorem SameTree.refl (files : Files) : SameTree files files := ⟨rfl, fun _ => Iff.rfl⟩

theorem SameTree.symm {before after : Files} (h : SameTree before after) : SameTree after before :=
  ⟨h.workingDirectory.symm, fun l => (h.directories l).symm⟩

theorem SameTree.trans {f g k : Files} (h : SameTree f g) (h' : SameTree g k) : SameTree f k :=
  ⟨h'.workingDirectory.trans h.workingDirectory, fun l => (h'.directories l).trans (h.directories l)⟩

theorem enter_of_sameTree {f g : Files} (h : SameTree f g) {directory l : Location}
    {step : List Char} (he : f.enter directory step = .ok l) : g.enter directory step = .ok l := by
  unfold enter at he ⊢
  by_cases h₁ : step = ['.']
  · rw [if_pos h₁] at he ⊢; exact he
  by_cases h₂ : step = ['.', '.']
  · rw [if_neg h₁, if_pos h₂] at he ⊢; exact he
  by_cases h₃ : (String.ofList step).utf8ByteSize > nameLimit
  · rw [if_neg h₁, if_neg h₂, if_pos h₃] at he; cases he
  rw [if_neg h₁, if_neg h₂, if_neg h₃] at he ⊢
  cases hg : f.get? (step :: directory) with
  | none => rw [hg] at he; cases he
  | some node =>
    cases node with
    | file content => rw [hg] at he; cases he
    | link dest => rw [hg] at he; cases he
    | directory => rw [(h.directories _).mpr hg]; rw [hg] at he; exact he

theorem walk_of_sameTree {f g : Files} (h : SameTree f g) {steps : List (List Char)} :
    ∀ {first l : Location}, f.walk first steps = .ok l → g.walk first steps = .ok l := by
  induction steps with
  | nil => intro first l hw; exact hw
  | cons step steps ih =>
    intro first l hw
    rw [walk, List.foldlM_cons] at hw ⊢
    cases he : f.enter first step with
    | error fault => rw [he] at hw; cases hw
    | ok next =>
      rw [he] at hw
      rw [enter_of_sameTree h he]
      exact ih hw

theorem start_of_sameTree {f g : Files} (h : SameTree f g) (path : Path) :
    g.start path = f.start path := by
  rw [start, start, h.workingDirectory]

theorem resolve_of_sameTree {f g : Files} (h : SameTree f g) {path : Path} {target : Target}
    (hr : f.resolve path = .ok target) : g.resolve path = .ok target := by
  obtain ⟨hp, directory, hw, ha⟩ := resolve_eq_ok.mp hr
  rw [resolve_eq_ok, start_of_sameTree h]
  exact ⟨hp, directory, walk_of_sameTree h hw, ha⟩

theorem SameTree.leads_iff {f g : Files} (h : SameTree f g) (path : Path) (l : Location) :
    g.Leads path l ↔ f.Leads path l := by
  constructor
  · rintro ⟨target, hr, hl⟩
    exact ⟨target, resolve_of_sameTree h.symm hr, hl⟩
  · rintro ⟨target, hr, hl⟩
    exact ⟨target, resolve_of_sameTree h hr, hl⟩

/-- A path whose directory is there leads to the same target or fails for the same reason as
long as the directories stay. -/
theorem resolve_congr {f g : Files} (h : SameTree f g) {path : Path} {directory : Location}
    (hw : f.walk (f.start path) path.steps.dropLast = .ok directory) :
    g.resolve path = f.resolve path := by
  rw [resolve_eq, resolve_eq, start_of_sameTree h, walk_of_sameTree h hw, hw]

/-! ## What an operation changes -/

structure ChangedWithin (before after : Files) (changed : Location → Prop) : Prop
    extends SameTree before after where
  elsewhere : ∀ l, ¬ changed l → after.get? l = before.get? l

theorem ChangedWithin.refl (files : Files) (changed : Location → Prop) :
    ChangedWithin files files changed :=
  ⟨SameTree.refl files, fun _ _ => rfl⟩

theorem ChangedWithin.trans {f g k : Files} {changed : Location → Prop}
    (h : ChangedWithin f g changed) (h' : ChangedWithin g k changed) : ChangedWithin f k changed :=
  ⟨h.toSameTree.trans h'.toSameTree, fun l hl => (h'.elsewhere l hl).trans (h.elsewhere l hl)⟩

theorem ChangedWithin.mono {f g : Files} {changed changed' : Location → Prop}
    (h : ChangedWithin f g changed) (hc : ∀ l, changed l → changed' l) :
    ChangedWithin f g changed' :=
  ⟨h.toSameTree, fun l hl => h.elsewhere l fun hc' => hl (hc l hc')⟩

theorem ne_nil_of_not_directory {files : Files} {l : Location}
    (h : files.get? l ≠ some .directory) : l ≠ [] := by
  rintro rfl
  exact h rfl

theorem changedWithin_insert {files : Files} {l : Location} (h : files.get? l ≠ some .directory)
    (content : Content) : ChangedWithin files (files.insert l (.file content)) (· = l) where
  workingDirectory := rfl
  directories l' := by
    by_cases hl : l' = l
    · subst hl
      rw [get?_insert_self _ _ (ne_nil_of_not_directory h)]
      exact ⟨nofun, fun hd => absurd hd h⟩
    · rw [get?_insert_of_ne _ _ hl]
  elsewhere l' hl := get?_insert_of_ne _ _ hl

theorem changedWithin_erase {files : Files} {l : Location} (h : files.get? l ≠ some .directory) :
    ChangedWithin files (files.erase l) (· = l) where
  workingDirectory := rfl
  directories l' := by
    by_cases hl : l' = l
    · subst hl
      rw [get?_erase_self _ (ne_nil_of_not_directory h)]
      exact ⟨nofun, fun hd => absurd hd h⟩
    · rw [get?_erase_of_ne _ hl]
  elsewhere l' hl := get?_erase_of_ne _ hl

/-! ## The operations -/

section
variable {files : Files} {path : Path} {target : Target}

theorem entry_of_resolve (hr : files.resolve path = .ok target) :
    files.entry path = match files.get? target.location with
      | none => .error .notFound
      | some .directory => .ok (target.location, .directory)
      | some node =>
        if target.slash then .error .notDirectory else .ok (target.location, node) := by
  rw [entry, hr]
  show (match files.get? target.location with | none => _ | some .directory => _ | some _ => _) = _
  split
  · rfl
  · rfl
  · split <;> rfl

theorem entry_of_refused {fault : Fault} (hr : files.resolve path = .error fault) :
    files.entry path = .error fault := by
  rw [entry, hr]
  rfl

theorem entry_eq_ok {l : Location} {node : Node} (h : files.entry path = .ok (l, node)) :
    ∃ target, files.resolve path = .ok target ∧ target.location = l ∧ files.get? l = some node := by
  cases hr : files.resolve path with
  | error fault => rw [entry_of_refused hr] at h; cases h
  | ok target =>
    rw [entry_of_resolve hr] at h
    refine ⟨target, rfl, ?_⟩
    split at h
    · cases h
    · next hg => cases h; exact ⟨rfl, hg⟩
    · next hg =>
      split at h
      · cases h
      · cases h; exact ⟨rfl, hg⟩

theorem remove_of_resolve (hr : files.resolve path = .ok target) :
    files.remove path = match files.get? target.location with
      | none => .error .notFound
      | some .directory => .error .isDirectory
      | some _ =>
        if target.slash then .error .notDirectory else .ok (files.erase target.location) := by
  rw [remove, entry_of_resolve hr]
  split
  · rfl
  · rfl
  · next node hnode hg =>
    split
    · rfl
    · cases node with
      | directory => exact absurd rfl hnode
      | file content => rfl
      | link dest => rfl

theorem remove_of_refused {fault : Fault} (hr : files.resolve path = .error fault) :
    files.remove path = .error fault := by
  rw [remove, entry_of_refused hr]
  rfl

theorem follow_of_not_link {l : Location} (h : ∀ dest, files.get? l ≠ some (.link dest))
    (limit : Nat) : files.follow limit l = l := by
  cases limit with
  | zero => rfl
  | succ limit =>
    rw [follow]
    split
    · next dest hg => exact absurd hg (h dest)
    · rfl

theorem find_of_entry {l : Location} {node : Node} (h : files.entry path = .ok (l, node)) :
    files.find path = match files.get? (files.follow linkLimit l) with
      | none => .error .notFound
      | some (.link _) => .error .tooManyLinks
      | some node => .ok (files.follow linkLimit l, node) := by
  rw [find, h]
  show (match files.get? (files.follow linkLimit l) with
    | none => _ | some (.link _) => _ | some _ => _) = _
  split <;> rfl

theorem find_of_file {l : Location} {content : Content}
    (h : files.entry path = .ok (l, .file content)) : files.find path = .ok (l, .file content) := by
  obtain ⟨-, -, -, hg⟩ := entry_eq_ok h
  rw [find_of_entry h, follow_of_not_link (by rw [hg]; exact nofun), hg]

theorem find_of_lost {fault : Fault} (h : files.entry path = .error fault) :
    files.find path = .error fault := by
  rw [find, h]
  rfl

theorem write_of_resolve (hr : files.resolve path = .ok target) (content : Content) :
    files.write path content =
      if target.name.isNone || target.slash then .error .isDirectory
      else match files.get? target.location with
        | some .directory => .error .isDirectory
        | _ => .ok (files.insert target.location (.file content)) := by
  rw [write, hr]
  show (if _ then _ else _) = _
  split <;> rfl

theorem write_of_refused {fault : Fault} (hr : files.resolve path = .error fault)
    (content : Content) : files.write path content = .error fault := by
  rw [write, hr]
  rfl

theorem rename_of_resolve {source dest : Path} {old new : Target}
    (ho : files.resolve source = .ok old) (hn : files.resolve dest = .ok new) :
    files.rename source dest =
      if old.name.isNone || new.name.isNone then .error .busy
      else match files.get? old.location with
        | none => .error .notFound
        | some .directory => .error .isDirectory
        | some node =>
          if old.slash || new.slash then .error .notDirectory
          else match files.get? new.location with
            | some .directory => .error .isDirectory
            | _ => .ok ((files.erase old.location).insert new.location node) := by
  rw [rename, ho, hn]
  show (if _ then _ else _) = _
  split
  · rfl
  · show (match files.get? old.location with | none => _ | some .directory => _ | some _ => _) = _
    cases files.get? old.location with
    | none => rfl
    | some node =>
      cases node with
      | directory => rfl
      | file _ => show (if _ then _ else _) = _; split <;> rfl
      | link _ => show (if _ then _ else _) = _; split <;> rfl

end

theorem write_eq_ok {files after : Files} {path : Path} {content : Content}
    (h : files.write path content = .ok after) :
    ∃ target name, files.resolve path = .ok target ∧ target.name = some name ∧
      target.slash = false ∧ files.get? target.location ≠ some .directory ∧
      after = files.insert target.location (.file content) := by
  cases hr : files.resolve path with
  | error fault => rw [write_of_refused hr] at h; cases h
  | ok target =>
    rw [write_of_resolve hr] at h
    split at h
    · cases h
    · next hn =>
      simp only [Bool.or_eq_true, not_or, Bool.not_eq_true, Option.isNone_iff_eq_none, ← ne_eq,
        Option.ne_none_iff_exists'] at hn
      obtain ⟨⟨name, hname⟩, hslash⟩ := hn
      split at h
      · cases h
      · next hd => exact ⟨target, name, rfl, hname, hslash, hd, (Except.ok.inj h).symm⟩

theorem rename_eq_ok {files after : Files} {source dest : Path}
    (h : files.rename source dest = .ok after) :
    ∃ old new name name' node, files.resolve source = .ok old ∧ files.resolve dest = .ok new ∧
      old.name = some name ∧ new.name = some name' ∧ new.slash = false ∧
      files.get? old.location = some node ∧ files.get? new.location ≠ some .directory ∧
      after = (files.erase old.location).insert new.location node := by
  cases ho : files.resolve source with
  | error fault => rw [rename, ho] at h; cases h
  | ok old =>
    cases hn : files.resolve dest with
    | error fault => rw [rename, ho, hn] at h; cases h
    | ok new =>
      rw [rename_of_resolve ho hn] at h
      split at h
      · cases h
      · next hnames =>
        simp only [Bool.or_eq_true, not_or, Option.isNone_iff_eq_none, ← ne_eq,
          Option.ne_none_iff_exists'] at hnames
        obtain ⟨⟨name, hname⟩, name', hname'⟩ := hnames
        split at h
        · cases h
        · cases h
        · next node hnode hg =>
          split at h
          · cases h
          · next hslash =>
            simp only [Bool.or_eq_true, not_or, Bool.not_eq_true] at hslash
            split at h
            · cases h
            · next hd =>
              exact ⟨old, new, name, name', node, rfl, rfl, hname, hname', hslash.2, hg, hd,
                (Except.ok.inj h).symm⟩

/-! ## Changes at paths -/

/-- What stands at a path, if something can be reached there. -/
def at? (files : Files) (path : Path) : Option Node := (files.entry path).toOption.map Prod.snd

theorem SameTree.at?_eq {f g : Files} (h : SameTree f g) {path : Path}
    (hl : ∀ l, f.Leads path l → g.get? l = f.get? l) : g.at? path = f.at? path := by
  rw [at?, at?]
  cases hr : f.resolve path with
  | ok target =>
    rw [entry_of_resolve hr, entry_of_resolve (resolve_of_sameTree h hr), hl _ ⟨target, hr, rfl⟩]
  | error fault =>
    cases hr' : g.resolve path with
    | ok target =>
      rw [resolve_of_sameTree h.symm hr'] at hr
      cases hr
    | error fault' =>
      rw [entry_of_refused hr, entry_of_refused hr']
      rfl

theorem at?_of_write {files after : Files} {path : Path} {content : Content}
    (h : files.write path content = .ok after) : after.at? path = some (.file content) := by
  obtain ⟨target, name, hr, hname, hslash, hd, rfl⟩ := write_eq_ok h
  have htree := (changedWithin_insert hd content).toSameTree
  rw [at?, entry_of_resolve (resolve_of_sameTree htree hr),
    get?_insert_self _ _ (ne_nil_of_not_directory hd), hslash]
  rfl

/-- The locations that the links from one pass on the way to a file. -/
inductive Passes (files : Files) : Location → Location → Prop
  | here (l : Location) : Passes files l l
  | link {l dest l' : Location} :
      files.get? l = some (.link dest) → Passes files dest l' → Passes files l l'

theorem passes_follow (files : Files) (limit : Nat) :
    ∀ l, files.Passes l (files.follow limit l) := by
  induction limit with
  | zero => exact .here
  | succ limit ih =>
    intro l
    rw [follow]
    split
    · next dest hg => exact .link hg (ih dest)
    · exact .here l

theorem follow_congr {f g : Files} (limit : Nat) :
    ∀ l, (∀ l', f.Passes l l' → g.get? l' = f.get? l') → g.follow limit l = f.follow limit l := by
  induction limit with
  | zero => intro l _; rfl
  | succ limit ih =>
    intro l h
    rw [follow, follow, h l (.here l)]
    cases hg : f.get? l with
    | none => rfl
    | some node =>
      cases node with
      | directory => rfl
      | file content => rfl
      | link dest => exact ih dest fun l' hl' => h l' (.link hg hl')

/-- What is found behind a path depends on the places that are passed alone. -/
theorem find_congr {f g : Files} {path : Path} (h : g.resolve path = f.resolve path)
    (hl : ∀ l l', f.Leads path l → f.Passes l l' → g.get? l' = f.get? l') :
    g.find path = f.find path := by
  have hentry : g.entry path = f.entry path := by
    cases hr : f.resolve path with
    | error fault => rw [entry_of_refused hr, entry_of_refused (h.trans hr)]
    | ok target =>
      rw [entry_of_resolve hr, entry_of_resolve (h.trans hr), hl _ _ ⟨target, hr, rfl⟩ (.here _)]
  cases he : f.entry path with
  | error fault => rw [find_of_lost he, find_of_lost (hentry.trans he)]
  | ok found =>
    obtain ⟨target, hr, hlocation, -⟩ := entry_eq_ok he
    have hpasses := fun l => hl found.1 l ⟨target, hr, hlocation⟩
    rw [find_of_entry he, find_of_entry (hentry.trans he), follow_congr _ _ hpasses,
      hpasses _ (passes_follow f linkLimit found.1)]

theorem entry_of_find {files : Files} {path : Path} {found : Location × Node}
    (h : files.find path = .ok found) : ∃ first, files.entry path = .ok first := by
  cases he : files.entry path with
  | error fault => rw [find_of_lost he] at h; cases h
  | ok first => exact ⟨first, rfl⟩

/-- Nothing is changed but what stands at some paths: neither at any other location nor, as a
path sees it, at any path that does not lead to the place of one of them. -/
structure UnchangedBut (before after : Files) (paths : List Path) : Prop
    extends SameTree before after where
  nodes : ∀ l, (∀ p ∈ paths, ¬ before.Leads p l) → after.get? l = before.get? l
  found : ∀ path, (∀ l, before.Leads path l → ∀ p ∈ paths, ¬ before.Leads p l) →
    after.at? path = before.at? path

theorem ChangedWithin.unchangedBut {before after : Files} {paths : List Path}
    (h : ChangedWithin before after fun l => ∃ p ∈ paths, before.Leads p l) :
    UnchangedBut before after paths where
  toSameTree := h.toSameTree
  nodes l hl := h.elsewhere l fun ⟨p, hp, hlead⟩ => hl p hp hlead
  found _ hpath := h.toSameTree.at?_eq fun l hl =>
    h.elsewhere l fun ⟨p, hp, hlead⟩ => hpath l hl p hp hlead

end TimingCharts.Files
