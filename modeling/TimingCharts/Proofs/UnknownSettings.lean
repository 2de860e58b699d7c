import Mathlib.Data.List.Induction
import TimingCharts.Settings

/-!
# Unknown settings

A document with a key that its place does not have is refused, wherever the key stands and whatever
its value is. No line that is added to a document takes a key away, so it stays refused.
-/

namespace TimingCharts

inductive Section where
  | general
  | of (b : Benchmark)
  deriving DecidableEq

namespace Section

def name : Section → String
  | general => "general"
  | of b => b.name

def keys : Section → List String
  | general => Settings.generalNames
  | of _ => Settings.overrideNames

theorem name_injective : Function.Injective name := by
  rintro (_ | ⟨⟨⟩⟩) (_ | ⟨⟨⟩⟩) h
  all_goals
    first
    | rfl
    | exact absurd h (by decide)

end Section

namespace Settings

open Toml (Value Document insertAt updateTable)

/-- A document with a key that its place does not have: at the top, as the name of a table, or in a
table that is a section. -/
inductive HasUnknown (doc : Document) : Prop
  | entry {e : String × Value} (h : e ∈ doc.root) (unknown : e.1 ∉ sectionNames)
  | header {t : Toml.Table} {name : String} (h : t ∈ doc.tables) (header : t.header = [name])
      (unknown : name ∉ sectionNames)
  | field {t : Toml.Table} {s : Section} {e : String × Value} (h : t ∈ doc.tables)
      (header : t.header = [s.name]) (he : e ∈ t.entries) (unknown : e.1 ∉ s.keys)

/-! ## Added lines -/

theorem updateTable_keeps {key : String}
    {change : List (String × Value) → Option (List (String × Value))}
    {es es' : List (String × Value)} (h : updateTable key change es = some es')
    {e : String × Value} (he : e ∈ es) : ∃ v, (e.1, v) ∈ es' := by
  induction es generalizing es' with
  | nil => cases he
  | cons p es ih =>
    obtain ⟨k, v⟩ := p
    unfold updateTable at h
    split at h
    · split at h
      · obtain ⟨inner, -, ⟨⟩⟩ := Option.bind_eq_some_iff.mp h
        rcases List.mem_cons.mp he with rfl | he
        · exact ⟨_, List.mem_cons_self⟩
        · exact ⟨e.2, List.mem_cons_of_mem _ he⟩
      · cases h
    · obtain ⟨rest, hrest, ⟨⟩⟩ := Option.bind_eq_some_iff.mp h
      rcases List.mem_cons.mp he with rfl | he
      · exact ⟨v, List.mem_cons_self⟩
      · obtain ⟨v', hv'⟩ := ih hrest he
        exact ⟨v', List.mem_cons_of_mem _ hv'⟩

theorem insertAt_keeps {path : List String} {v : Value} {es es' : List (String × Value)}
    (h : insertAt path v es = some es') {e : String × Value} (he : e ∈ es) :
    ∃ v', (e.1, v') ∈ es' := by
  unfold insertAt at h
  split at h
  · cases h
  · cases h
    exact ⟨e.2, List.mem_append_left _ he⟩
  · exact updateTable_keeps h he

theorem HasUnknown.addLine {doc doc' : Document} (h : HasUnknown doc) {l : Toml.Line}
    (hl : doc.addLine l = some doc') : HasUnknown doc' := by
  cases l with
  | header path repeated =>
    cases hl
    cases h with
    | entry h unknown => exact .entry h unknown
    | header h header unknown => exact .header (List.mem_append_left _ h) header unknown
    | field h header he unknown => exact .field (List.mem_append_left _ h) header he unknown
  | entry path v =>
    unfold Document.addLine at hl
    dsimp only at hl
    split at hl
    · obtain ⟨root, hroot, ⟨⟩⟩ := Option.bind_eq_some_iff.mp hl
      cases h with
      | entry h unknown =>
        obtain ⟨v', hv'⟩ := insertAt_keeps hroot h
        exact .entry hv' unknown
      | header h header unknown => exact .header h header unknown
      | field h header he unknown => exact .field h header he unknown
    · rename_i table hlast
      obtain ⟨entries, hentries, ⟨⟩⟩ := Option.bind_eq_some_iff.mp hl
      obtain ⟨tables, htables⟩ := List.getLast?_eq_some_iff.mp hlast
      -- only the entries of the last table change
      have split {t : Toml.Table} (ht : t ∈ doc.tables) : t ∈ doc.tables.dropLast ∨ t = table := by
        rw [htables, List.dropLast_concat]
        rwa [htables, List.mem_append, List.mem_singleton] at ht
      cases h with
      | entry h unknown => exact .entry h unknown
      | header h header unknown =>
        rcases split h with h | rfl
        · exact .header (List.mem_append_left _ h) header unknown
        · exact .header (List.mem_append_right _ List.mem_cons_self) header unknown
      | field h header he unknown =>
        rcases split h with h | rfl
        · exact .field (List.mem_append_left _ h) header he unknown
        · obtain ⟨v', hv'⟩ := insertAt_keeps hentries he
          exact .field (List.mem_append_right _ List.mem_cons_self) header hv' unknown

theorem HasUnknown.foldlM {doc doc' : Document} (h : HasUnknown doc) {ls : List Toml.Line}
    (hls : ls.foldlM Document.addLine doc = some doc') : HasUnknown doc' := by
  induction ls generalizing doc with
  | nil =>
    cases hls
    exact h
  | cons l ls ih =>
    obtain ⟨doc₁, hl, hrest⟩ := Option.bind_eq_some_iff.mp hls
    exact ih (h.addLine hl) hrest

/-! ## Refusal -/

theorem foldlM_error {α δ ε : Type} {f : δ → α → Except ε δ} {xs : List α} {x : α} (hx : x ∈ xs)
    (h : ∀ d, ∃ e, f d x = .error e) (d : δ) : ∃ e, xs.foldlM f d = .error e := by
  induction xs generalizing d with
  | nil => cases hx
  | cons y xs ih =>
    rw [List.foldlM_cons]
    rcases List.mem_cons.mp hx with rfl | hx
    · obtain ⟨e, he⟩ := h d
      rw [he]
      exact ⟨e, rfl⟩
    · cases f d y with
      | error e => exact ⟨e, rfl⟩
      | ok d => exact ih hx d

theorem mem_itemsOf {tables : List Toml.Table} {t : Toml.Table} (ht : t ∈ tables) {name : String}
    (header : t.header = [name]) {e : String × Value} (he : e ∈ t.entries) (opened : Bool) :
    .again ∈ itemsOf opened tables ∨ .field e.1 (.value e.2) ∈ itemsOf opened tables := by
  induction tables generalizing opened with
  | nil => cases ht
  | cons table tables ih =>
    unfold itemsOf
    rcases List.mem_cons.mp ht with rfl | ht
    · rw [header]
      dsimp only
      cases opened with
      | true => exact .inl List.mem_cons_self
      | false => exact .inr (List.mem_append_left _ (List.mem_map_of_mem he))
    · split
      · exact (ih ht opened).imp (List.mem_cons_of_mem _) (List.mem_cons_of_mem _)
      · exact (ih ht true).imp (List.mem_append_right _) (List.mem_append_right _)

section
variable {t : Toml.Table} {tables : List Toml.Table} (ht : t ∈ tables) {name : String}
  (header : t.header = [name]) {e : String × Value} (he : e ∈ t.entries)
include ht header he

theorem read_tables_error {δ : Type} {schema : Schema δ} (unknown : e.1 ∉ schema.names) :
    ∃ l, schema.read (.tables tables) = .error l := by
  unfold Schema.read
  split
  case h_5 => exact ⟨_, rfl⟩
  case h_6 hmember =>
    cases hmember
    -- the field is unknown, or the section was opened before
    rcases mem_itemsOf ht header he false with hagain | hfield
    · refine foldlM_error hagain (fun d => ?_) _
      exact ⟨_, rfl⟩
    · refine foldlM_error hfield (fun d => ?_) _
      rw [Schema.readItem, if_pos unknown]
      exact ⟨_, rfl⟩
  all_goals
    rename_i hmember
    cases hmember

theorem readMember_unknown_field (alone : Bool) (d : Draft) (s : Section)
    (unknown : e.1 ∉ s.keys) : ∃ l, readMember alone d s.name (.tables tables) = .error l := by
  cases s with
  | general =>
    obtain ⟨l, hl⟩ : ∃ l, (generalSchema alone).read (.tables tables) = .error l :=
      read_tables_error ht header he unknown
    change ∃ l, readMember alone d "general" _ = _
    unfold readMember
    dsimp only
    rw [hl]
    cases d.general <;> exact ⟨_, rfl⟩
  | of b =>
    obtain ⟨l, hl⟩ : ∃ l, overridesSchema.read (.tables tables) = .error l :=
      read_tables_error ht header he unknown
    unfold readMember
    dsimp only
    rw [hl]
    cases b
    · cases d.bubbleSort <;> exact ⟨_, rfl⟩
    · cases d.mergeSort <;> exact ⟨_, rfl⟩
    · cases d.mergeSortThreads <;> exact ⟨_, rfl⟩
    · cases d.vectorAddition <;> exact ⟨_, rfl⟩

end

theorem readMember_unknown (alone : Bool) (d : Draft) {name : String}
    (unknown : name ∉ sectionNames) (member : Member) :
    ∃ l, readMember alone d name member = .error l := by
  unfold readMember
  dsimp only
  split
  case h_6 => exact ⟨_, rfl⟩
  all_goals exact absurd (by decide) unknown

theorem addTable_keeps (table : Toml.Table) (name : String)
    {sections : List (String × List Toml.Table)} {n : String} {tables : List Toml.Table}
    (h : (n, tables) ∈ sections) :
    ∃ tables', (n, tables') ∈ addTable table name sections ∧ tables ⊆ tables' := by
  induction sections with
  | nil => cases h
  | cons p sections ih =>
    obtain ⟨k, ts⟩ := p
    unfold addTable
    split
    · rcases List.mem_cons.mp h with h | h
      · cases h
        exact ⟨_, List.mem_cons_self, List.subset_append_left _ _⟩
      · exact ⟨tables, List.mem_cons_of_mem _ h, List.Subset.refl _⟩
    · rcases List.mem_cons.mp h with h | h
      · cases h
        exact ⟨_, List.mem_cons_self, List.Subset.refl _⟩
      · obtain ⟨tables', htables', hsub⟩ := ih h
        exact ⟨tables', List.mem_cons_of_mem _ htables', hsub⟩

theorem mem_addTable (table : Toml.Table) (name : String)
    (sections : List (String × List Toml.Table)) :
    ∃ tables, (name, tables) ∈ addTable table name sections ∧ table ∈ tables := by
  induction sections with
  | nil => exact ⟨[table], List.mem_cons_self, List.mem_cons_self⟩
  | cons p sections ih =>
    obtain ⟨k, ts⟩ := p
    unfold addTable
    split
    · rename_i hk
      exact ⟨ts ++ [table], hk ▸ List.mem_cons_self, List.mem_append_right _ List.mem_cons_self⟩
    · obtain ⟨tables, htables, hmem⟩ := ih
      exact ⟨tables, List.mem_cons_of_mem _ htables, hmem⟩

theorem mem_sections {t : Toml.Table} {all : List Toml.Table} (ht : t ∈ all) {name : String}
    (header : t.header.head?.getD "" = name) (sections : List (String × List Toml.Table)) :
    ∃ tables, (name, tables) ∈ all.foldl
      (fun sections table => addTable table (table.header.head?.getD "") sections) sections ∧
        t ∈ tables := by
  induction all using List.reverseRecOn with
  | nil => cases ht
  | append_singleton all table ih =>
    rw [List.foldl_append, List.foldl_cons, List.foldl_nil]
    rcases List.mem_append.mp ht with ht | ht
    · obtain ⟨tables, htables, hmem⟩ := ih ht
      obtain ⟨tables', htables', hsub⟩ := addTable_keeps table _ htables
      exact ⟨tables', htables', hsub hmem⟩
    · cases List.mem_singleton.mp ht
      exact header ▸ mem_addTable _ _ _

theorem exists_members {doc : Document} {t : Toml.Table} (ht : t ∈ doc.tables) {name : String}
    (header : t.header = [name]) :
    ∃ tables, (name, .tables tables) ∈ members doc ∧ t ∈ tables := by
  have first : t.header.head?.getD "" = name := by
    rw [header]
    rfl
  obtain ⟨tables, htables, hmem⟩ := mem_sections ht first []
  exact ⟨tables, List.mem_append_right _ (List.mem_map_of_mem htables), hmem⟩

/-- No document with a key that its place does not have is read as settings. -/
theorem ofDocument_unknown {doc : Document} (h : HasUnknown doc) :
    ∃ l, ofDocument doc = .error l := by
  have members_error {x : String × Member} (hx : x ∈ members doc)
      (hread : ∀ alone d, ∃ l, readMember alone d x.1 x.2 = .error l) :
      ∃ l, ofDocument doc = .error l := by
    obtain ⟨l, hl⟩ := foldlM_error (f := fun d (x : String × Member) =>
      readMember (isAlone doc) d x.1 x.2) hx (hread (isAlone doc)) {}
    refine ⟨l, ?_⟩
    unfold ofDocument
    rw [hl]
    rfl
  cases h with
  | @entry e h unknown =>
    have hx : (e.1, Member.value e.2) ∈ members doc :=
      List.mem_append_left _ (List.mem_map_of_mem h)
    exact members_error hx fun alone d => readMember_unknown alone d unknown _
  | header h header unknown =>
    obtain ⟨tables, hx, -⟩ := exists_members h header
    exact members_error hx fun alone d => readMember_unknown alone d unknown _
  | field h header he unknown =>
    obtain ⟨tables, hx, ht⟩ := exists_members h header
    exact members_error hx fun alone d => readMember_unknown_field ht header he alone d _ unknown

end Settings

end TimingCharts
