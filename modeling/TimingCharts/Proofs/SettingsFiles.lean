import TimingCharts.Proofs.Decoding
import TimingCharts.Proofs.SettingsLines
import TimingCharts.Proofs.UnknownSettings
import TimingCharts.Request

/-!
# Settings files

Settings are written section by section, in any order and with the fields of a section in any
order; what has its usual value may be left out. Reading gives back the settings. With one key more,
at the top or in a section, the file is refused if the key has no place there.
-/

namespace TimingCharts

open Toml (Value Document Line WritesKey WritesLine WritesLines)

/-! ## What settings say -/

def Log.Level.keyword : Log.Level → String
  | .error => "error"
  | .warn => "warn"
  | .info => "info"
  | .debug => "debug"
  | .trace => "trace"

namespace General

variable (g : General)

def fields : List (String × Value) :=
  [("directory", .string g.directory), ("show", .boolean g.opens),
    ("logging", .string g.logging.keyword), ("width", .integer g.width.toNat),
    ("height", .integer g.height.toNat)]

/-- What is known of the settings when some of their fields have been seen. -/
def draft (seen : List String) : Settings.GeneralDraft where
  directory := if "directory" ∈ seen then some g.directory else none
  opens := if "show" ∈ seen then some g.opens else none
  logging := if "logging" ∈ seen then some g.logging else none
  width := if "width" ∈ seen then some g.width else none
  height := if "height" ∈ seen then some g.height else none

end General

namespace Overrides

variable (o : Overrides)

def fields : List (String × Value) :=
  (o.input.map fun name => ("input", Value.string name)).toList ++
    (o.output.map fun name => ("output", Value.string name)).toList

def draft (seen : List String) : Overrides where
  input := if "input" ∈ seen then o.input else none
  output := if "output" ∈ seen then o.output else none

end Overrides

def Section.fields (c : Settings) : Section → List (String × Value)
  | general => c.general.fields
  | of b => (c.overrides b).fields

namespace Settings

/-- Some of the fields of a section, each once and in any order; those left out have their usual
value. -/
structure Keeps (kept all usual : List (String × Value)) : Prop where
  once : (kept.map Prod.fst).Nodup
  known : kept ⊆ all
  left : ∀ f ∈ all, f ∈ kept ∨ f ∈ usual

/-- Sections with fields that say what the settings are. -/
structure Shows (c : Settings) (written : List (Section × List (String × Value))) : Prop where
  once : (written.map Prod.fst).Nodup
  kept : ∀ p ∈ written, Keeps p.2 (p.1.fields c) (p.1.fields {})
  left : ∀ s ∉ written.map Prod.fst, Keeps [] (s.fields c) (s.fields {})

def fieldLines (fields : List (String × Value)) : List Line := fields.map fun f => .entry [f.1] f.2

def sectionLines (written : List (Section × List (String × Value))) : List Line :=
  written.flatMap fun p => .header [p.1.name] false :: fieldLines p.2

/-! ## Reading fields -/

/-- A fold over items with distinct keys, where each step adds one key to what has been seen. -/
theorem foldlM_draft {ι κ δ ε : Type} {f : δ → ι → Except ε δ} {key : ι → κ} (draft : List κ → δ)
    {xs : List ι} (once : (xs.map key).Nodup)
    (step : ∀ x ∈ xs, ∀ seen, key x ∉ seen → f (draft seen) x = .ok (draft (seen ++ [key x])))
    (seen : List κ) (new : ∀ x ∈ xs, key x ∉ seen) :
    xs.foldlM f (draft seen) = .ok (draft (seen ++ xs.map key)) := by
  induction xs generalizing seen with
  | nil => simp [pure, Except.pure]
  | cons x xs ih =>
    rw [List.map_cons, List.nodup_cons] at once
    have hstep := step x List.mem_cons_self seen (new x List.mem_cons_self)
    have hnew : ∀ y ∈ xs, key y ∉ seen ++ [key x] := by
      intro y hy
      rw [List.mem_append, List.mem_singleton, not_or]
      exact ⟨new y (List.mem_cons_of_mem _ hy), fun h => once.1 (h ▸ List.mem_map_of_mem hy)⟩
    rw [List.foldlM_cons, hstep]
    change xs.foldlM f (draft (seen ++ [key x])) = _
    rw [ih once.2 (fun y hy => step y (List.mem_cons_of_mem _ hy)) _ hnew]
    simp

theorem namedLevel_keyword (l : Log.Level) : namedLevel l.keyword true = .ok l := by
  cases l <;> rfl

theorem readSize_toNat (n : UInt32) : readSize (.value (.integer n.toNat)) = .ok n := by
  have h : (0 : Int) ≤ n.toNat ∧ (n.toNat : Int) < UInt32.size :=
    ⟨Int.natCast_nonneg _, Int.ofNat_lt.mpr n.toNat_lt⟩
  rw [readSize, if_pos h]
  simp

theorem readItem_eq {δ : Type} {schema : Schema δ} {d d' : δ} {key : String} {given : Given}
    (known : key ∈ schema.names) (new : schema.seen d key = false)
    (hput : schema.put d key given = .ok d') :
    schema.readItem true d (.field key given) = .ok d' := by
  rw [Schema.readItem, if_neg (not_not.mpr known), if_neg (by simp [new]), hput]
  rfl

theorem putGeneral_draft (alone : Bool) (g : General) {f : String × Value} (hf : f ∈ g.fields)
    (seen : List String) :
    putGeneral alone (g.draft seen) f.1 (.value f.2) = .ok (g.draft (seen ++ [f.1])) := by
  simp only [General.fields, List.mem_cons, List.not_mem_nil, or_false] at hf
  rcases hf with rfl | rfl | rfl | rfl | rfl
  · change Except.ok { g.draft seen with directory := some g.directory } = _
    simp [General.draft]
  · change Except.ok { g.draft seen with opens := some g.opens } = _
    simp [General.draft]
  · change (do return { g.draft seen with logging := some (← namedLevel _ true) }) = _
    rw [namedLevel_keyword]
    change Except.ok { g.draft seen with logging := some g.logging } = _
    simp [General.draft]
  · change (do return { g.draft seen with width := some (← readSize _) }) = _
    rw [readSize_toNat]
    change Except.ok { g.draft seen with width := some g.width } = _
    simp [General.draft]
  · change (do return { g.draft seen with height := some (← readSize _) }) = _
    rw [readSize_toNat]
    change Except.ok { g.draft seen with height := some g.height } = _
    simp [General.draft]

theorem readItem_general (alone : Bool) (g : General) {f : String × Value} (hf : f ∈ g.fields)
    (seen : List String) (new : f.1 ∉ seen) :
    (generalSchema alone).readItem true (g.draft seen) (.field f.1 (.value f.2)) =
      .ok (g.draft (seen ++ [f.1])) := by
  have hput := putGeneral_draft alone g hf seen
  simp only [General.fields, List.mem_cons, List.not_mem_nil, or_false] at hf
  rcases hf with rfl | rfl | rfl | rfl | rfl
  all_goals
    dsimp only at new
    refine readItem_eq (by simp [generalSchema, generalNames]) ?_ hput
    simp [generalSchema, General.draft, new]

theorem mem_overrides_fields {o : Overrides} {f : String × Value} : f ∈ o.fields ↔
    (∃ name, o.input = some name ∧ f = ("input", .string name)) ∨
      ∃ name, o.output = some name ∧ f = ("output", .string name) := by
  simp only [Overrides.fields, List.mem_append, Option.mem_toList,
    Option.map_eq_some_iff, eq_comm (b := f)]

theorem readItem_overrides (o : Overrides) {f : String × Value} (hf : f ∈ o.fields)
    (seen : List String) (new : f.1 ∉ seen) :
    overridesSchema.readItem true (o.draft seen) (.field f.1 (.value f.2)) =
      .ok (o.draft (seen ++ [f.1])) := by
  rcases mem_overrides_fields.mp hf with ⟨name, hname, rfl⟩ | ⟨name, hname, rfl⟩
  all_goals
    dsimp only at new
    refine readItem_eq (by simp [overridesSchema, overrideNames]) ?_ ?_
    · simp [overridesSchema, Overrides.draft, new]
    · simp [overridesSchema, putOverride, Overrides.draft, readString, hname, bind, Except.bind,
        pure, Except.pure]

/-! ## Reading sections -/

def tableOf (p : Section × List (String × Value)) : Toml.Table := ⟨[p.1.name], false, p.2⟩

theorem read_kept {δ : Type} {schema : Schema δ} (draft : List String → δ)
    {all kept usual : List (String × Value)} (start : schema.start = draft [])
    (hkept : Keeps kept all usual)
    (step : ∀ f ∈ all, ∀ seen, f.1 ∉ seen →
      schema.readItem true (draft seen) (.field f.1 (.value f.2)) = .ok (draft (seen ++ [f.1])))
    (s : Section) :
    schema.read (.tables [tableOf (s, kept)]) = .ok (draft (kept.map Prod.fst)) := by
  have items : itemsOf false [tableOf (s, kept)] =
      kept.map fun f => Item.field f.1 (.value f.2) := by
    simp [itemsOf, tableOf]
  have hfold := foldlM_draft draft (f := fun d (f : String × Value) =>
    schema.readItem true d (.field f.1 (.value f.2))) hkept.once
    (fun f hf => step f (hkept.known hf)) [] (fun _ _ => List.not_mem_nil)
  rw [← List.foldlM_map] at hfold
  change (itemsOf false [tableOf (s, kept)]).foldlM (schema.readItem true) schema.start = _
  rw [items, start]
  exact hfold

theorem keyword_injective : Function.Injective Log.Level.keyword := by
  intro l l' h
  have hl := namedLevel_keyword l
  rw [h, namedLevel_keyword l'] at hl
  exact (Except.ok.inj hl).symm

theorem getD_ite {α : Type} {p : Prop} [Decidable p] {a b : α} (h : p ∨ a = b) :
    (if p then some a else none).getD b = a := by
  by_cases hp : p
  · rw [if_pos hp, Option.getD_some]
  · rw [if_neg hp, Option.getD_none, h.resolve_left hp]

theorem finish_draft {g : General} {seen : List String}
    (h : ∀ f ∈ g.fields, f.1 ∈ seen ∨ f ∈ ({} : General).fields) : (g.draft seen).finish = g := by
  obtain ⟨directory, opens, logging, width, height⟩ :
      ("directory" ∈ seen ∨ g.directory = ".") ∧ ("show" ∈ seen ∨ g.opens = false) ∧
        ("logging" ∈ seen ∨ g.logging.keyword = Log.Level.info.keyword) ∧
        ("width" ∈ seen ∨ (g.width.toNat : Int) = 1000) ∧
        ("height" ∈ seen ∨ (g.height.toNat : Int) = 600) := by
    simpa [General.fields] using h
  have logging : "logging" ∈ seen ∨ g.logging = .info := logging.imp_right (keyword_injective ·)
  have width : "width" ∈ seen ∨ g.width = 1000 :=
    width.imp_right fun h => UInt32.toNat_inj.mp (Int.ofNat_inj.mp h)
  have height : "height" ∈ seen ∨ g.height = 600 :=
    height.imp_right fun h => UInt32.toNat_inj.mp (Int.ofNat_inj.mp h)
  simp only [General.draft, GeneralDraft.finish, getD_ite directory, getD_ite opens,
    getD_ite logging, getD_ite width, getD_ite height]

theorem draft_eq_self {o : Overrides} {seen : List String} (h : ∀ f ∈ o.fields, f.1 ∈ seen) :
    o.draft seen = o := by
  have hinput : "input" ∉ seen → o.input = none := by
    intro hseen
    refine Option.eq_none_iff_forall_ne_some.mpr fun name hname => hseen ?_
    exact h ("input", .string name) (mem_overrides_fields.mpr (.inl ⟨name, hname, rfl⟩))
  have houtput : "output" ∉ seen → o.output = none := by
    intro hseen
    refine Option.eq_none_iff_forall_ne_some.mpr fun name hname => hseen ?_
    exact h ("output", .string name) (mem_overrides_fields.mpr (.inr ⟨name, hname, rfl⟩))
  have ite_none {p : Prop} [Decidable p] {a : Option String} (h : ¬p → a = none) :
      (if p then a else none) = a := by
    by_cases hp : p
    · rw [if_pos hp]
    · rw [if_neg hp, h hp]
  rw [Overrides.draft, ite_none hinput, ite_none houtput]

theorem read_general (alone : Bool) {g : General} {kept : List (String × Value)}
    (h : Keeps kept g.fields ({} : General).fields) (s : Section) :
    GeneralDraft.finish <$> (generalSchema alone).read (.tables [tableOf (s, kept)]) = .ok g := by
  have hfinish : (g.draft (kept.map Prod.fst)).finish = g :=
    finish_draft fun f hf => (h.left f hf).imp_left List.mem_map_of_mem
  rw [read_kept g.draft (by simp [generalSchema, General.draft]) h
    (fun f hf => readItem_general alone g hf)]
  exact congrArg Except.ok hfinish

theorem read_overrides {o : Overrides} {kept : List (String × Value)}
    (h : Keeps kept o.fields ({} : Overrides).fields) (s : Section) :
    overridesSchema.read (.tables [tableOf (s, kept)]) = .ok o := by
  have hself : o.draft (kept.map Prod.fst) = o :=
    draft_eq_self fun f hf => List.mem_map_of_mem ((h.left f hf).resolve_right List.not_mem_nil)
  rw [read_kept o.draft (by simp [overridesSchema, Overrides.draft]) h
    (fun f hf => readItem_overrides o hf), hself]

/-- What is known of the settings when some of their sections have been seen. -/
def draft (c : Settings) (seen : List Section) : Draft where
  general := if .general ∈ seen then some c.general else none
  bubbleSort := if .of .bubbleSort ∈ seen then some c.bubbleSort else none
  mergeSort := if .of .mergeSort ∈ seen then some c.mergeSort else none
  mergeSortThreads := if .of .mergeSortThreads ∈ seen then some c.mergeSortThreads else none
  vectorAddition := if .of .vectorAddition ∈ seen then some c.vectorAddition else none

theorem readMember_kept (alone : Bool) (c : Settings) {p : Section × List (String × Value)}
    (h : Keeps p.2 (p.1.fields c) (p.1.fields {})) (seen : List Section) (new : p.1 ∉ seen) :
    readMember alone (draft c seen) p.1.name (.tables [tableOf p]) =
      .ok (draft c (seen ++ [p.1])) := by
  obtain ⟨s, kept⟩ := p
  cases s with
  | general =>
    have hread := read_general alone h .general
    change readMember alone (draft c seen) "general" _ = _
    unfold readMember
    dsimp only at new ⊢
    rw [hread]
    simp [draft, new, bind, Except.bind, pure, Except.pure, Except.mapError]
  | of b =>
    have hkept : Keeps kept (c.overrides b).fields ({} : Overrides).fields := by cases b <;> exact h
    have hread := read_overrides hkept (.of b)
    unfold readMember
    dsimp only at new ⊢
    rw [hread]
    cases b
    all_goals
      simp [Section.name, Benchmark.name, draft, new, overrides, bind, Except.bind, pure,
        Except.pure, Except.mapError]

theorem general_usual {g : General} (h : Keeps [] g.fields ({} : General).fields) : g = {} := by
  have hfinish : (g.draft []).finish = g :=
    finish_draft fun f hf => .inr ((h.left f hf).resolve_left List.not_mem_nil)
  rw [← hfinish]
  simp [General.draft, GeneralDraft.finish]

theorem overrides_usual {o : Overrides} (h : Keeps [] o.fields ({} : Overrides).fields) :
    o = {} := by
  have hself : o.draft [] = o := draft_eq_self fun f hf => by
    rcases h.left f hf with hf | hf <;> cases hf
  rw [← hself]
  simp [Overrides.draft]

theorem finish_draft_sections {c : Settings} {seen : List Section}
    (h : ∀ s ∉ seen, Keeps [] (s.fields c) (s.fields {})) : (draft c seen).finish = c := by
  have general : .general ∈ seen ∨ c.general = {} := by
    by_cases hseen : .general ∈ seen
    · exact .inl hseen
    · exact .inr (general_usual (h .general hseen))
  have of (b : Benchmark) : .of b ∈ seen ∨ c.overrides b = {} := by
    by_cases hseen : .of b ∈ seen
    · exact .inl hseen
    · refine .inr (overrides_usual ?_)
      cases b <;> exact h _ hseen
  have bubbleSort : .of .bubbleSort ∈ seen ∨ c.bubbleSort = {} := of .bubbleSort
  have mergeSort : .of .mergeSort ∈ seen ∨ c.mergeSort = {} := of .mergeSort
  have mergeSortThreads : .of .mergeSortThreads ∈ seen ∨ c.mergeSortThreads = {} :=
    of .mergeSortThreads
  have vectorAddition : .of .vectorAddition ∈ seen ∨ c.vectorAddition = {} := of .vectorAddition
  simp only [draft, Draft.finish, getD_ite general, getD_ite bubbleSort, getD_ite mergeSort,
    getD_ite mergeSortThreads, getD_ite vectorAddition]

/-! ## Documents -/

variable {c : Settings} {written : List (Section × List (String × Value))}

theorem addLine_entry (root : List (String × Value)) (tables : List Toml.Table) (t : Toml.Table)
    (f : String × Value) :
    Document.addLine ⟨root, tables ++ [t]⟩ (.entry [f.1] f.2) =
      some ⟨root, tables ++ [{ t with entries := t.entries ++ [f] }]⟩ := by
  simp [Document.addLine, Toml.insertAt]

theorem foldlM_fieldLines (fields : List (String × Value)) (root : List (String × Value))
    (tables : List Toml.Table) (t : Toml.Table) :
    (fieldLines fields).foldlM Document.addLine ⟨root, tables ++ [t]⟩ =
      some ⟨root, tables ++ [{ t with entries := t.entries ++ fields }]⟩ := by
  induction fields generalizing t with
  | nil => simp [fieldLines]
  | cons f fields ih =>
    change (Document.addLine ⟨root, tables ++ [t]⟩ (.entry [f.1] f.2)).bind
      ((fieldLines fields).foldlM Document.addLine) = _
    rw [addLine_entry]
    change (fieldLines fields).foldlM Document.addLine _ = _
    rw [ih]
    simp

theorem foldlM_sectionLines (written : List (Section × List (String × Value)))
    (root : List (String × Value)) (tables : List Toml.Table) :
    (sectionLines written).foldlM Document.addLine ⟨root, tables⟩ =
      some ⟨root, tables ++ written.map tableOf⟩ := by
  induction written generalizing tables with
  | nil => simp [sectionLines]
  | cons p written ih =>
    change (fieldLines p.2 ++ sectionLines written).foldlM Document.addLine
      ⟨root, tables ++ [⟨[p.1.name], false, []⟩]⟩ = _
    rw [List.foldlM_append, foldlM_fieldLines]
    change (sectionLines written).foldlM Document.addLine ⟨root, tables ++ [tableOf p]⟩ = _
    rw [ih, List.map_cons, List.append_assoc, List.singleton_append]

theorem addTable_new {sections : List (String × List Toml.Table)} {name : String}
    (new : name ∉ sections.map Prod.fst) (table : Toml.Table) :
    addTable table name sections = sections ++ [(name, [table])] := by
  induction sections with
  | nil => rfl
  | cons p sections ih =>
    rw [List.map_cons, List.mem_cons, not_or] at new
    rw [addTable, if_neg (Ne.symm new.1), ih new.2, List.cons_append]

theorem foldl_addTable (once : (written.map Prod.fst).Nodup)
    (sections : List (String × List Toml.Table))
    (new : ∀ p ∈ written, p.1.name ∉ sections.map Prod.fst) :
    (written.map tableOf).foldl
        (fun sections table => addTable table (table.header.head?.getD "") sections) sections =
      sections ++ written.map fun p => (p.1.name, [tableOf p]) := by
  induction written generalizing sections with
  | nil => simp
  | cons p written ih =>
    rw [List.map_cons, List.nodup_cons] at once
    have hnew : ∀ q ∈ written, q.1.name ∉ (sections ++ [(p.1.name, [tableOf p])]).map Prod.fst := by
      intro q hq
      rw [List.map_append, List.mem_append, not_or]
      refine ⟨new q (List.mem_cons_of_mem _ hq), fun h => once.1 ?_⟩
      have hname : q.1.name = p.1.name := List.mem_singleton.mp h
      exact Section.name_injective hname ▸ List.mem_map_of_mem hq
    rw [List.map_cons, List.foldl_cons]
    change List.foldl _ (addTable (tableOf p) p.1.name sections) _ = _
    rw [addTable_new (new p List.mem_cons_self), ih once.2 _ hnew]
    simp

theorem ofDocument_written (h : Shows c written) : ofDocument ⟨[], written.map tableOf⟩ = .ok c := by
  have hmembers : members ⟨[], written.map tableOf⟩ =
      written.map fun p => (p.1.name, .tables [tableOf p]) := by
    rw [members, foldl_addTable h.once [] (fun _ _ => List.not_mem_nil)]
    simp
  have hfinish : (draft c (written.map Prod.fst)).finish = c := finish_draft_sections h.left
  have start : ({} : Draft) = draft c [] := by simp [draft]
  have hfold (alone : Bool) := foldlM_draft (draft c)
    (f := fun d (p : Section × List (String × Value)) =>
      readMember alone d p.1.name (.tables [tableOf p])) h.once
    (fun p hp => readMember_kept alone c (h.kept p hp)) [] (fun _ _ => List.not_mem_nil)
  unfold ofDocument
  rw [hmembers, List.foldlM_map, start, hfold]
  exact congrArg Except.ok hfinish

theorem parse_written (h : Shows c written) {text : List Char}
    (htext : WritesLines (sectionLines written) text) : parse text = .ok c := by
  unfold parse
  rw [Toml.parse?_eq htext, foldlM_sectionLines, List.nil_append]
  dsimp only
  rw [ofDocument_written h]
  rfl

/-! ## One key more -/

/-- The text of a settings file with one key more, whatever its value is: at the top, before the
first section or as a table of its own between two sections, or in a section. -/
inductive AddsKey (written : List (Section × List (String × Value))) : List Char → Prop
  | entry {key : String} {word value back : List Char} (hkey : WritesKey key word)
      (unknown : key ∉ sectionNames) (hback : WritesLines (sectionLines written) back) :
      AddsKey written (word ++ " =".toList ++ (value ++ '\n' :: back))
  | table {before after : List (Section × List (String × Value))} {key : String}
      {word value front back : List Char} (split : written = before ++ after)
      (hkey : WritesKey key word) (unknown : key ∉ sectionNames)
      (hfront : WritesLines (sectionLines before) front)
      (hback : WritesLines (sectionLines after) back) :
      AddsKey written (front ++ ('[' :: word ++ [']'] ++ (value ++ '\n' :: back)))
  | field {before after : List (Section × List (String × Value))} {s : Section}
      {first last : List (String × Value)} {key : String} {word value front back : List Char}
      (split : written = before ++ (s, first ++ last) :: after) (hkey : WritesKey key word)
      (unknown : key ∉ s.keys) (hfront : WritesLines (sectionLines (before ++ [(s, first)])) front)
      (hback : WritesLines (fieldLines last ++ sectionLines after) back) :
      AddsKey written (front ++ (word ++ " =".toList ++ (value ++ '\n' :: back)))

theorem parse_error {text : List Char}
    (h : ∀ doc, Document.parse? text = some doc → HasUnknown doc) :
    ∃ problem, parse text = .error (.content problem) := by
  unfold parse
  cases hdoc : Document.parse? text with
  | none => exact ⟨_, rfl⟩
  | some doc =>
    obtain ⟨l, hl⟩ := ofDocument_unknown (h doc hdoc)
    refine ⟨l, ?_⟩
    dsimp only
    rw [hl]
    rfl

theorem parse_addsKey {text : List Char} (h : AddsKey written text) :
    ∃ problem, parse text = .error (.content problem) := by
  -- the line with the key is read, and no line after it takes the key away
  refine parse_error fun doc hdoc => ?_
  cases h with
  | @entry key word value back hkey unknown =>
    have hfront : WritesLines [] [] := ⟨[], .nil, rfl⟩
    rw [← List.nil_append (_ ++ (value ++ _))] at hdoc
    obtain ⟨_, ls, ⟨v, rfl⟩, hfold⟩ := Toml.exists_of_parse? hfront hkey.opens_entry hdoc
    change ls.foldlM Document.addLine ⟨[(key, v)], []⟩ = _ at hfold
    exact (HasUnknown.entry List.mem_cons_self unknown).foldlM hfold
  | @table before after key word value front back split hkey unknown hfront =>
    obtain ⟨_, ls, rfl, hfold⟩ := Toml.exists_of_parse? hfront hkey.opens_header hdoc
    rw [List.foldlM_append, foldlM_sectionLines] at hfold
    change ls.foldlM Document.addLine
      ⟨[], [] ++ before.map tableOf ++ [⟨[key], false, []⟩]⟩ = _ at hfold
    have hmem := List.mem_append_right ([] ++ before.map tableOf)
      (List.mem_singleton_self (⟨[key], false, []⟩ : Toml.Table))
    exact (HasUnknown.header hmem rfl unknown).foldlM hfold
  | @field before after s first last key word value front back split hkey unknown hfront =>
    obtain ⟨_, ls, ⟨v, rfl⟩, hfold⟩ := Toml.exists_of_parse? hfront hkey.opens_entry hdoc
    rw [List.foldlM_append, foldlM_sectionLines, List.map_append] at hfold
    have hadd := addLine_entry [] (before.map tableOf) (tableOf (s, first)) (key, v)
    change (Document.addLine ⟨[], before.map tableOf ++ [tableOf (s, first)]⟩
      (.entry [key] v)).bind (ls.foldlM Document.addLine) = _ at hfold
    rw [hadd] at hfold
    change ls.foldlM Document.addLine
      ⟨[], before.map tableOf ++ [tableOf (s, first ++ [(key, v)])]⟩ = _ at hfold
    have hfield : (key, v) ∈ (tableOf (s, first ++ [(key, v)])).entries :=
      List.mem_append_right _ List.mem_cons_self
    have hmem := List.mem_append_right (before.map tableOf)
      (List.mem_singleton_self (tableOf (s, first ++ [(key, v)])))
    exact (HasUnknown.field hmem rfl hfield unknown).foldlM hfold

/-! ## Any settings can be written -/

theorem exists_writesText (text : List Char) : ∃ written, Toml.WritesText text written := by
  refine ⟨_, text.map fun c => '\\' :: 'U' :: Toml.hexText 8 c.toNat, ?_, rfl⟩
  rw [List.forall₂_map_right_iff]
  exact List.forall₂_same.mpr fun c _ => .eight c

theorem exists_writesKey (key : String) : ∃ word, WritesKey key word := by
  obtain ⟨word, hword⟩ := exists_writesText key.toList
  exact ⟨word, .quoted hword⟩

theorem exists_writesValue {s : Section} {f : String × Value} (hf : f ∈ s.fields c) :
    ∃ word, Toml.WritesValue f.2 word := by
  have string (text : String) : ∃ word, Toml.WritesValue (.string text) word := by
    obtain ⟨word, hword⟩ := exists_writesText text.toList
    exact ⟨word, .string hword⟩
  have size (n : UInt32) : ∃ word, Toml.WritesValue (.integer n.toNat) word :=
    ⟨_, .integer (n.toNat_lt.trans (by decide))⟩
  cases s with
  | general =>
    simp only [Section.fields, General.fields, List.mem_cons, List.not_mem_nil, or_false] at hf
    rcases hf with rfl | rfl | rfl | rfl | rfl
    · exact string _
    · exact ⟨_, .boolean _⟩
    · exact string _
    · exact size _
    · exact size _
  | of b =>
    rcases mem_overrides_fields.mp hf with ⟨name, -, rfl⟩ | ⟨name, -, rfl⟩
    · exact string name
    · exact string name

theorem exists_writesLines {ls : List Line} (h : ∀ l ∈ ls, ∃ text, WritesLine l text) :
    ∃ text, WritesLines ls text := by
  induction ls with
  | nil => exact ⟨[], [], .nil, rfl⟩
  | cons l ls ih =>
    obtain ⟨piece, hpiece⟩ := h l List.mem_cons_self
    obtain ⟨_, pieces, hpieces, -⟩ := ih fun l hl => h l (List.mem_cons_of_mem _ hl)
    exact ⟨_, piece :: pieces, .cons hpiece hpieces, rfl⟩

theorem exists_written (h : Shows c written) :
    ∃ text, WritesLines (sectionLines written) text := by
  refine exists_writesLines fun l hl => ?_
  obtain ⟨p, hp, hl⟩ := List.mem_flatMap.mp hl
  rcases List.mem_cons.mp hl with rfl | hl
  · obtain ⟨word, hword⟩ := exists_writesKey p.1.name
    exact ⟨_, .header hword⟩
  · obtain ⟨f, hf, rfl⟩ := List.mem_map.mp hl
    obtain ⟨word, hword⟩ := exists_writesKey f.1
    obtain ⟨word', hword'⟩ := exists_writesValue ((h.kept p hp).known hf)
    exact ⟨_, .entry hword hword'⟩

def Holds (files : Files) (file : String) (text : List Char) : Prop :=
  ∃ content, files.read ⟨file⟩ = .ok content ∧ content.toBytes = Text.encode text

theorem load_eq {files : Files} {file : String} {text : List Char} (h : Holds files file text) :
    load files file = (parse text).mapError (.settings file) := by
  obtain ⟨content, hread, hbytes⟩ := h
  unfold load
  rw [hread]
  change (do
    let text ← (Text.decode content.toBytes).mapError fun _ => Fault.notText
    parse text : Except Fault Settings).mapError (Failure.settings file) = _
  rw [hbytes, Text.decode_encode]
  rfl

/-- Any settings can be written with their sections and fields in any order, and what has its usual
value left out or not; reading the text gives them back. With one key more that has no place where
it stands, the text is refused, and the failure names the file. -/
theorem load_written (shows : Shows c written) :
    (∃ text, WritesLines (sectionLines written) text) ∧
      (∀ text, WritesLines (sectionLines written) text →
        parse text = .ok c ∧ ∀ files file, Holds files file text → load files file = .ok c) ∧
      ∀ text, AddsKey written text → ∃ problem, parse text = .error (.content problem) ∧
        ∀ files file, Holds files file text →
          load files file = .error (.settings file (.content problem)) := by
  refine ⟨exists_written shows, fun text htext => ?_, fun text hadds => ?_⟩
  · have hparse := parse_written shows htext
    refine ⟨hparse, fun files file h => ?_⟩
    rw [load_eq h, hparse]
    rfl
  · obtain ⟨problem, hparse⟩ := parse_addsKey hadds
    refine ⟨problem, hparse, fun files file h => ?_⟩
    rw [load_eq h, hparse]
    rfl

theorem load_written_two_sections :
    let c : Settings :=
      { general := { directory := "a\"\n", height := 800 }
        mergeSortThreads := { input := some "t" } }
    let written : List (Section × List (String × Value)) :=
      [(.of .mergeSortThreads, [("input", .string "t")]),
        (.general, [("show", .boolean false), ("height", .integer 800),
          ("directory", .string "a\"\n")])]
    let start := "[merge-sort-threads]\ninput = \"t\"\n[general]\nshow = false\n".toList
    let rest := "height = 800\ndirectory = \"a\\\"\\n\"\n".toList
    let added := start ++ ("threads".toList ++ " =".toList ++ (" [4, 8]".toList ++ '\n' :: rest))
    Shows c written ∧ WritesLines (sectionLines written) (start ++ rest) ∧
      parse (start ++ rest) = .ok c ∧ AddsKey written added ∧
      ∃ problem, parse added = .error (.content problem) := by
  intro c written start rest added
  have shows : Shows c written := by
    refine ⟨by decide, fun p hp => ?_, fun s hs => ?_⟩
    · simp only [written, List.mem_cons, List.not_mem_nil, or_false] at hp
      rcases hp with rfl | rfl
      · refine ⟨by decide, ?_, ?_⟩ <;> simp [Section.fields, overrides, Overrides.fields, c]
      · refine ⟨by decide, ?_, ?_⟩ <;> simp [Section.fields, General.fields, c]
    · rcases s with _ | ⟨⟨⟩⟩
      case general | of.mergeSortThreads => exact absurd (by decide) hs
      all_goals exact ⟨List.nodup_nil, List.nil_subset _, fun f hf => nomatch hf⟩
  have input : Toml.WritesText "t".toList "\"t\"".toList :=
    ⟨[['t']], .cons (.plain (by decide) (by decide) (by decide)) .nil, by decide⟩
  have directory : Toml.WritesText "a\"\n".toList "\"a\\\"\\n\"".toList := by
    refine ⟨[['a'], ['\\', '"'], ['\\', 'n']], ?_, by decide⟩
    exact .cons (.plain (by decide) (by decide) (by decide))
      (.cons (.letter rfl) (.cons (.letter rfl) .nil))
  have key {name : String} (filled : name.toList ≠ [])
      (bare : name.toList.all Toml.isBareChar = true) : WritesKey name name.toList :=
    .bare filled (List.all_eq_true.mp bare)
  have hstart : WritesLines (sectionLines ([(.of .mergeSortThreads, [("input", .string "t")])] ++
      [(.general, [("show", .boolean false)])])) start := by
    refine ⟨_, .cons (.header (key ?_ ?_)) (.cons (.entry (key ?_ ?_) (.string input))
      (.cons (.header (key ?_ ?_)) (.cons (.entry (key ?_ ?_) (.boolean false)) .nil))), ?_⟩
    all_goals decide
  have hrest : WritesLines (fieldLines [("height", .integer (800 : Nat)),
      ("directory", .string "a\"\n")] ++ sectionLines []) rest := by
    refine ⟨_, .cons (.entry (key ?_ ?_) (.integer ?_))
      (.cons (.entry (key ?_ ?_) (.string directory)) .nil), ?_⟩
    all_goals decide
  have hadds : AddsKey written added :=
    .field rfl (key (by decide) (by decide)) (by decide) hstart hrest
  obtain ⟨-, hreads, hrefuses⟩ := load_written shows
  have htext := hstart.append hrest
  obtain ⟨problem, hproblem, -⟩ := hrefuses added hadds
  exact ⟨shows, htext, (hreads _ htext).1, hadds, problem, hproblem⟩

end Settings

end TimingCharts
