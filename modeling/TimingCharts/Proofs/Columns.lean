import Mathlib.Data.List.Find
import TimingCharts.Proofs.FaultyFiles

/-!
# The order of columns

A layout finds its columns by their names and reads nothing else of a record
(`samplesOf_congr`). A record under a header row is the list `names.zip fields`, and a cell of it is
what `lookup` finds there, so it is enough to follow `lookup` while columns change their places and
others come in between or on the right (`samplesOf_columns`).
-/

namespace TimingCharts

/-! ## Rows with their entries moved -/

section
variable {α β : Type}

def pick (order : List Nat) (row : List α) : List α := order.filterMap (row[·]?)

/-- Two rows as one: `true` takes the next entry of the first and `false` of the second, if there is
one, and what the plan leaves follows. -/
def weave : List Bool → List α → List α → List α
  | [], row, added => row ++ added
  | true :: plan, row, added => row.take 1 ++ weave plan (row.drop 1) added
  | false :: plan, row, added => added.take 1 ++ weave plan row (added.drop 1)

theorem map_pick (f : α → β) (order : List Nat) (row : List α) :
    (pick order row).map f = pick order (row.map f) := by
  simp [pick, List.map_filterMap]

theorem pick_range (row : List α) : pick (List.range row.length) row = row := by
  induction row with
  | nil => rfl
  | cons x row ih =>
    simpa [pick, List.range_succ_eq_map, List.filterMap_map, Function.comp_def] using ih

theorem pick_perm {order : List Nat} {row : List α} (h : order.Perm (List.range row.length)) :
    (pick order row).Perm row := by
  have := h.filterMap (row[·]?)
  rwa [← pick, ← pick, pick_range] at this

theorem zip_pick (order : List Nat) {xs : List α} {ys : List β} (h : xs.length = ys.length) :
    (pick order xs).zip (pick order ys) = pick order (xs.zip ys) := by
  induction order with
  | nil => rfl
  | cons i order ih =>
    simp only [pick, List.filterMap_cons, List.zip, List.getElem?_zipWith] at ih ⊢
    by_cases hi : i < xs.length
    · simp [hi, h ▸ hi, ih]
    · simp [hi, h ▸ hi, ih]

theorem map_weave (f : α → β) (plan : List Bool) (row added : List α) :
    (weave plan row added).map f = weave plan (row.map f) (added.map f) := by
  induction plan generalizing row added with
  | nil => exact List.map_append
  | cons first plan ih => cases first <;> simp [weave, ih]

theorem weave_perm (plan : List Bool) (row added : List α) :
    (weave plan row added).Perm (row ++ added) := by
  induction plan generalizing row added with
  | nil => exact .refl _
  | cons first plan ih =>
    cases first with
    | true =>
      have := (ih (row.drop 1) added).append_left (row.take 1)
      rwa [← List.append_assoc, List.take_append_drop] at this
    | false =>
      have := (ih row (added.drop 1)).append_left (added.take 1)
      refine this.trans ((List.perm_append_comm_assoc _ _ _).trans ?_)
      rw [List.take_append_drop]

theorem zip_weave (plan : List Bool) {as cs : List α} {bs ds : List β}
    (h : as.length = bs.length) (h' : cs.length = ds.length) :
    (weave plan as cs).zip (weave plan bs ds) = weave plan (as.zip bs) (cs.zip ds) := by
  induction plan generalizing as bs cs ds with
  | nil => exact List.zip_append h
  | cons first plan ih =>
    cases first with
    | true =>
      rw [weave, weave, weave, List.zip_append (by simp [h]), ih (by simp [h]) h']
      simp [List.zip, List.take_zipWith, List.drop_zipWith]
    | false =>
      rw [weave, weave, weave, List.zip_append (by simp [h']), ih h (by simp [h'])]
      simp [List.zip, List.take_zipWith, List.drop_zipWith]

end

/-! ## Cells under their names -/

section
variable {κ β : Type} [DecidableEq κ]

theorem lookup_eq_some_iff_of_nodup {entries : List (κ × β)} (nodup : (entries.map Prod.fst).Nodup)
    {a : κ} {b : β} : entries.lookup a = some b ↔ (a, b) ∈ entries := by
  induction entries with
  | nil => simp
  | cons entry entries ih =>
    obtain ⟨k, v⟩ := entry
    obtain ⟨hk, nodup⟩ := List.nodup_cons.mp nodup
    rw [List.lookup_cons]
    by_cases hak : a = k
    · subst hak
      have : (a, b) ∉ entries := fun h => hk (List.mem_map.mpr ⟨_, h, rfl⟩)
      simp [this, eq_comm]
    · simp [beq_false_of_ne hak, hak, ih nodup]

theorem lookup_perm {entries entries' : List (κ × β)} (nodup : (entries.map Prod.fst).Nodup)
    (h : entries'.Perm entries) (a : κ) : entries'.lookup a = entries.lookup a := by
  have nodup' : (entries'.map Prod.fst).Nodup := (h.map Prod.fst).nodup_iff.mpr nodup
  ext b
  rw [lookup_eq_some_iff_of_nodup nodup, lookup_eq_some_iff_of_nodup nodup', h.mem_iff]

theorem lookup_weave (plan : List Bool) (entries : List (κ × β)) {added : List (κ × β)} {a : κ}
    (h : added.lookup a = none) : (weave plan entries added).lookup a = entries.lookup a := by
  induction plan generalizing entries added with
  | nil => rw [weave, List.lookup_append, h, Option.or_none]
  | cons first plan ih =>
    cases first with
    | true => rw [weave, List.lookup_append, ih _ h, ← List.lookup_append, List.take_append_drop]
    | false =>
      rw [← List.take_append_drop 1 added, List.lookup_append, Option.or_eq_none_iff] at h
      rw [weave, List.lookup_append, h.1, Option.none_or, ih _ h.2]

theorem lookup_zip {names : List κ} {fields : List β} (h : fields.length = names.length) (a : κ) :
    (names.zip fields).lookup a = fields[names.idxOf a]? := by
  induction names generalizing fields with
  | nil => simp_all
  | cons name names ih =>
    cases fields with
    | nil => simp at h
    | cons field fields =>
      rw [List.zip_cons_cons, List.lookup_cons]
      by_cases ha : a = name
      · simp [ha]
      · rw [beq_false_of_ne ha, List.idxOf_cons_ne _ (Ne.symm ha)]
        exact ih (Nat.succ.inj h)

end

/-! ## What a layout reads -/

namespace Table

/-- A header row with these names, and below it records of as many texts each. -/
structure Readable (names : List String) (rows : List Delimited.Record) : Prop where
  header : headerRow rows = .ok names
  records : ∀ record ∈ rows.tail, ¬ Malformed names record

def grid (rows : List Delimited.Record) : List (List (List UInt8)) := rows.map (·.fields)

def lines (rows : List Delimited.Record) : List Nat := rows.map (·.position.line)

theorem texts_eq_ok {position : Delimited.Position} {fields : List (List UInt8)}
    {cells : List String} :
    texts position fields = .ok cells ↔ fields.map fieldText = cells.map (some ·.toList) := by
  constructor
  · exact map_fieldText_of_texts
  · intro h
    have hall : firstNonText fields = none := by
      rw [firstNonText_eq_none]
      intro field hf
      obtain ⟨cell, -, hc⟩ := List.mem_map.mp (h ▸ List.mem_map_of_mem hf)
      simp [← isSome_fieldText, ← hc]
    have ht := errorOf_texts position fields
    rw [hall, Option.map_none, errorOf_eq_none] at ht
    obtain ⟨cells', ht⟩ := ht
    have hinj : Function.Injective fun cell : String => some cell.toList :=
      fun s t h => String.toList_inj.mp (Option.some.inj h)
    rw [ht, hinj.list_map ((map_fieldText_of_texts ht).symm.trans h)]

theorem not_malformed_iff {names : List String} {record : Delimited.Record} :
    ¬ Malformed names record ↔
      record.fields.length = names.length ∧ ∀ field ∈ record.fields, (fieldText field).isSome := by
  simp [Malformed, isSome_fieldText]

/-- Two records that a layout cannot tell apart, each under its own header row. -/
structure Agrees (layout : Layout String) (names names' : List String)
    (record record' : Delimited.Record) : Prop where
  line : record'.position.line = record.position.line
  sound : ¬ Malformed names record
  sound' : ¬ Malformed names' record'
  cells : ∀ name ∈ layout.names,
    (names'.zip record'.fields).lookup name = (names.zip record.fields).lookup name

theorem cellAt_eq_lookup {names : List String} {record : Delimited.Record}
    (h : ¬ Malformed names record) (name : String) :
    cellAt names record name = ((names.zip record.fields).lookup name).bind fieldText := by
  rw [cellAt, lookup_zip (not_malformed_iff.mp h).1]

theorem exists_texts {names : List String} {record : Delimited.Record}
    (h : ¬ Malformed names record) :
    ∃ cells, texts record.position (record.fields.map (Text.trimBy isAsciiBlank)) = .ok cells := by
  rw [← errorOf_eq_none, errorOf_texts, Option.map_eq_none_iff, firstNonText_eq_none]
  simp only [← isSome_fieldText, List.forall_mem_map, fieldText_trimBy]
  exact (not_malformed_iff.mp h).2

section
variable {names names' cells cells' : List String}

theorem readCount_congr {threads : Option String}
    (h : ∀ name ∈ threads.toList, (located names' name).readAs readThreads cells' =
      (located names name).readAs readThreads cells) :
    (threads.map (located names')).mapM (·.readAs readThreads cells') =
      (threads.map (located names)).mapM (·.readAs readThreads cells) := by
  cases threads with
  | none => rfl
  | some count => simp [h count (by simp)]

theorem readTimes_congr {variants : List String}
    (h : ∀ name ∈ variants, (located names' name).readAs readFloat cells' =
      (located names name).readAs readFloat cells) (size : UInt64) (threads : Option UInt32) :
    ((variants.map (located names')).mapM fun variant => do
      return (⟨size, ← variant.readAs readFloat cells', variant.name, threads⟩ : Sample Float)) =
    (variants.map (located names)).mapM fun variant => do
      return ⟨size, ← variant.readAs readFloat cells, variant.name, threads⟩ := by
  induction variants with
  | nil => rfl
  | cons name variants ih =>
    obtain ⟨hname, hrest⟩ := List.forall_mem_cons.mp h
    rw [List.map_cons, List.map_cons, List.mapM_cons, List.mapM_cons, ih hrest, hname]
    rfl

theorem samples_congr {layout : Layout String}
    (h : ∀ name ∈ layout.names,
      (located names' name).cell cells' = (located names name).cell cells) :
    (layout.map (located names')).samples cells' = (layout.map (located names)).samples cells := by
  have hread {α : Type} (read : List Char → Option α) : ∀ name ∈ layout.names,
      (located names' name).readAs read cells' = (located names name).readAs read cells := by
    intro name hn
    rw [Column.readAs, Column.readAs, h name hn]
    rfl
  cases layout with
  | long size variant time threads =>
    simp only [Layout.names, List.forall_mem_cons] at h hread
    simp only [Layout.map, Layout.samples, (hread _).1, (hread _).2.2.1, h.2.1,
      readCount_congr (hread readThreads).2.2.2]
  | wide size variants threads =>
    simp only [Layout.names, List.forall_mem_cons, List.forall_mem_append] at hread
    simp only [Layout.map, Layout.samples, (hread _).1, readCount_congr (hread readThreads).2.2,
      readTimes_congr (hread readFloat).2.1]

end

section
variable {layout : Layout String} {names names' : List String}

theorem Agrees.recordSamples {record record' : Delimited.Record}
    (h : Agrees layout names names' record record') (found : ∀ name ∈ layout.names, name ∈ names)
    (found' : ∀ name ∈ layout.names, name ∈ names') :
    recordSamples (layout.map (located names')) names'.length record' =
      recordSamples (layout.map (located names)) names.length record := by
  obtain ⟨cells, ht⟩ := exists_texts h.sound
  obtain ⟨cells', ht'⟩ := exists_texts h.sound'
  have hw := (not_malformed_iff.mp h.sound).1
  have hw' := (not_malformed_iff.mp h.sound').1
  have hc : ∀ name ∈ layout.names,
      (located names' name).cell cells' = (located names name).cell cells := by
    intro name hn
    have := cellAt_of_texts hw' ht' (found' name hn)
    rw [cellAt_eq_lookup h.sound', h.cells name hn, ← cellAt_eq_lookup h.sound,
      cellAt_of_texts hw ht (found name hn)] at this
    exact (String.toList_inj.mp (Option.some.inj this)).symm
  rw [Table.recordSamples, Table.recordSamples, ht, ht', h.line, if_neg (not_not.mpr hw),
    if_neg (not_not.mpr hw')]
  simp only [bind, Except.bind, samples_congr hc]

/-- A layout reads the columns that it names, and nothing else. -/
theorem samplesOf_congr {rows rows' : List Delimited.Record} (header : headerRow rows = .ok names)
    (header' : headerRow rows' = .ok names')
    (found : ∀ name ∈ layout.names, name ∈ names' ↔ name ∈ names)
    (records : List.Forall₂ (Agrees layout names names') rows.tail rows'.tail) :
    samplesOf layout rows' = samplesOf layout rows := by
  have hfind : layout.names.find? (· ∉ names') = layout.names.find? (· ∉ names) := by
    apply List.find?_congr
    intro name hn
    simp [found name hn]
  cases hm : layout.names.find? (· ∉ names) with
  | some name =>
    rw [samplesOf_of_missing header hm, samplesOf_of_missing header' (hfind.trans hm)]
  | none =>
    have hall : ∀ name ∈ layout.names, name ∈ names := by simpa using hm
    have hall' : ∀ name ∈ layout.names, name ∈ names' :=
      fun name hn => (found name hn).mpr (hall name hn)
    have hrows : rows'.tail.mapM (recordSamples (layout.map (located names')) names'.length) =
        rows.tail.mapM (recordSamples (layout.map (located names)) names.length) := by
      generalize rows.tail = body, rows'.tail = body' at records
      induction records with
      | nil => rfl
      | cons h _ ih => rw [List.mapM_cons, List.mapM_cons, ih, h.recordSamples hall hall']
    rw [samplesOf_of_found header hall, samplesOf_of_found header' hall', hrows]

end

/-! ## Columns that move, and columns that come in -/

section
variable {layout : Layout String} {names new : List String}
variable {rows rows' added : List Delimited.Record}

theorem forall₂_of_grid {op : List (List UInt8) → List (List UInt8) → List (List UInt8)}
    (hl : lines rows' = lines rows) (hg : grid rows' = List.zipWith op (grid rows) (grid added)) :
    List.Forall₂ (fun r r' => r'.position.line = r.position.line ∧ r ∈ rows ∧
      ∃ e ∈ added, r'.fields = op r.fields e.fields) rows rows' := by
  induction rows generalizing rows' added with
  | nil =>
    rw [List.map_eq_nil_iff.mp hl]
    exact .nil
  | cons r rows ih =>
    cases rows' with
    | nil => cases hl
    | cons r' rows' =>
      cases added with
      | nil => cases hg
      | cons e added =>
        obtain ⟨hline, hl⟩ := List.cons.inj hl
        obtain ⟨hfields, hg⟩ := List.cons.inj hg
        refine .cons ⟨hline, List.mem_cons_self, e, List.mem_cons_self, hfields⟩ ((ih hl hg).imp ?_)
        rintro s s' ⟨hline, hs, e', he', hfields⟩
        exact ⟨hline, List.mem_cons_of_mem _ hs, e', List.mem_cons_of_mem _ he', hfields⟩

theorem not_malformed_of_perm {names' : List String} {r r' : Delimited.Record}
    (hn : names'.Perm names) (hf : r'.fields.Perm r.fields) (hr : ¬ Malformed names r) :
    ¬ Malformed names' r' := by
  rw [not_malformed_iff] at hr ⊢
  refine ⟨by rw [hn.length_eq, hf.length_eq, hr.1], ?_⟩
  intro field h
  exact hr.2 field (hf.mem_iff.mp h)

theorem not_malformed_append {r e : Delimited.Record} (hr : ¬ Malformed names r)
    (he : ¬ Malformed new e) : ¬ Malformed (names ++ new) ⟨r.position, r.fields ++ e.fields⟩ := by
  rw [not_malformed_iff] at hr he ⊢
  refine ⟨by simp [hr.1, he.1], ?_⟩
  intro field h
  rcases List.mem_append.mp h with h | h
  · exact hr.2 field h
  · exact he.2 field h

theorem samplesOf_combined (op : {α : Type} → List α → List α → List α)
    (map_op : ∀ {α β : Type} (f : α → β) (row other : List α),
      (op row other).map f = op (row.map f) (other.map f))
    (table : Readable names rows) (columns : Readable new added) (hl : lines rows' = lines rows)
    (hg : grid rows' = List.zipWith op (grid rows) (grid added))
    (found : ∀ name ∈ layout.names, name ∈ op names new ↔ name ∈ names)
    (agree : ∀ {r r' e : Delimited.Record}, ¬ Malformed names r → ¬ Malformed new e →
      r'.fields = op r.fields e.fields → ¬ Malformed (op names new) r' ∧
        ∀ name ∈ layout.names,
          ((op names new).zip r'.fields).lookup name = (names.zip r.fields).lookup name) :
    samplesOf layout rows' = samplesOf layout rows := by
  -- without a header row there is nothing to put together, whatever the other rows are
  obtain _ | ⟨header, body⟩ := rows
  · rw [List.map_eq_nil_iff.mp hl]
  obtain _ | ⟨header', body'⟩ := rows'
  · cases hl
  obtain _ | ⟨first, rest⟩ := added
  · cases hg
  obtain ⟨-, hl⟩ := List.cons.inj hl
  obtain ⟨hfields, hg⟩ := List.cons.inj hg
  have hheader : headerRow (header' :: body') = .ok (op names new) := by
    apply texts_eq_ok.mpr
    calc header'.fields.map fieldText
        = op (header.fields.map fieldText) (first.fields.map fieldText) := by
          rw [← map_op]
          exact congrArg (List.map fieldText) hfields
      _ = op (names.map (some ·.toList)) (new.map (some ·.toList)) := by
          rw [texts_eq_ok.mp table.header, texts_eq_ok.mp columns.header]
      _ = (op names new).map (some ·.toList) := (map_op _ _ _).symm
  apply samplesOf_congr table.header hheader found
  apply (forall₂_of_grid hl hg).imp
  rintro r r' ⟨hline, hr, e, he, hfields⟩
  obtain ⟨sound', cells⟩ := agree (table.records r hr) (columns.records e he) hfields
  exact ⟨hline, table.records r hr, sound', cells⟩

theorem samplesOf_picked {order : List Nat} (table : Readable names rows) (nodup : names.Nodup)
    (horder : order.Perm (List.range names.length)) (hl : lines rows' = lines rows)
    (hg : grid rows' = (grid rows).map (pick order)) :
    samplesOf layout rows' = samplesOf layout rows := by
  have hnames : (pick order names).Perm names := pick_perm horder
  apply samplesOf_combined (fun row _ => pick order row) (fun f row _ => map_pick f order row)
    table table hl (by rw [hg, List.zipWith_self])
  · intro name _
    exact hnames.mem_iff
  · intro r r' _ hr _ hfields
    have hw := (not_malformed_iff.mp hr).1
    constructor
    · apply not_malformed_of_perm hnames _ hr
      rw [hfields]
      exact pick_perm (hw ▸ horder)
    · intro name _
      rw [hfields, zip_pick order hw.symm]
      apply lookup_perm
      · rwa [List.map_fst_zip hw.ge]
      · apply pick_perm
        rwa [List.length_zip, hw, min_self]

theorem samplesOf_woven (plan : List Bool) (table : Readable names rows)
    (columns : Readable new added) (hl : lines rows' = lines rows)
    (hg : grid rows' = List.zipWith (weave plan) (grid rows) (grid added))
    (found : ∀ name ∈ layout.names, name ∈ new → name ∈ names)
    (cells : ∀ {fields other : List (List UInt8)}, fields.length = names.length →
      other.length = new.length → ∀ name ∈ layout.names,
        (weave plan (names.zip fields) (new.zip other)).lookup name =
          (names.zip fields).lookup name) :
    samplesOf layout rows' = samplesOf layout rows := by
  have hnames := weave_perm plan names new
  apply samplesOf_combined (weave plan) (fun f => map_weave f plan) table columns hl hg
  · intro name hn
    rw [hnames.mem_iff, List.mem_append]
    exact or_iff_left_of_imp (found name hn)
  · intro r r' e hr he hfields
    have hw := (not_malformed_iff.mp hr).1
    have hw' := (not_malformed_iff.mp he).1
    constructor
    · apply not_malformed_of_perm hnames _ (not_malformed_append hr he)
      rw [hfields]
      exact weave_perm plan _ _
    · intro name hn
      rw [hfields, zip_weave plan hw.symm hw'.symm]
      exact cells hw hw' name hn

end

/-- Where columns stand does not matter to a layout, nor do columns that it does not name, nor
columns to the right of those that it finds. -/
theorem samplesOf_columns (layout : Layout String) {names : List String}
    {rows rows' : List Delimited.Record} (table : Readable names rows)
    (kept : lines rows' = lines rows) :
    (∀ order : List Nat, names.Nodup → order.Perm (List.range names.length) →
      grid rows' = (grid rows).map (pick order) →
        samplesOf layout rows' = samplesOf layout rows) ∧
    ∀ (new : List String) (added : List Delimited.Record), Readable new added →
      (∀ plan, (∀ name ∈ new, name ∉ layout.names) →
        grid rows' = List.zipWith (weave plan) (grid rows) (grid added) →
          samplesOf layout rows' = samplesOf layout rows) ∧
      ((∀ name ∈ layout.names, name ∈ names) →
        grid rows' = List.zipWith (· ++ ·) (grid rows) (grid added) →
          samplesOf layout rows' = samplesOf layout rows) := by
  refine ⟨?_, fun new added columns => ⟨?_, ?_⟩⟩
  · intro order nodup horder hg
    exact samplesOf_picked table nodup horder kept hg
  · intro plan unnamed hg
    apply samplesOf_woven plan table columns kept hg
    · intro name hn hnew
      exact absurd hn (unnamed name hnew)
    · intro fields other _ hw' name hn
      apply lookup_weave
      rw [lookup_zip hw', List.getElem?_eq_none_iff, hw', List.idxOf_eq_length]
      exact fun hnew => unnamed name hnew hn
  · intro found hg
    apply samplesOf_woven [] table columns kept hg
    · intro name hn _
      exact found name hn
    · intro fields other hw _ name hn
      -- the first column of a name is the one that counts, and it is not among the new ones
      have hlt : names.idxOf name < fields.length := by
        rw [hw]
        exact List.idxOf_lt_length_of_mem (found name hn)
      rw [weave, List.lookup_append, lookup_zip hw, List.getElem?_eq_getElem hlt, Option.some_or]

theorem samplesOf_columns_bad_time :
    let layout := Layout.long "n" "method" "time" none
    let rows (text : String) := Delimited.records (Text.encode text.toList)
    let file := rows "n,method,time\n1,a,2\n2,b,x\n"
    samplesOf layout file = .error (.invalidValue 3 "time" "x") ∧
      samplesOf layout (rows "time,n,method\n2,1,a\nx,2,b\n") = samplesOf layout file ∧
      samplesOf layout (rows "id,n,method,note,time\n7,1,a,p,2\n8,2,b,q,x\n") =
        samplesOf layout file ∧
      samplesOf layout (rows "n,method,time,time,n\n1,a,2,5,9\n2,b,x,6,9\n") =
        samplesOf layout file := by
  intro layout rows file
  have table : Readable ["n", "method", "time"] file :=
    ⟨by decide +kernel, by simp only [not_malformed_iff]; decide +kernel⟩
  have others : Readable ["id", "note"] (rows "id,note\n7,p\n8,q\n") :=
    ⟨by decide +kernel, by simp only [not_malformed_iff]; decide +kernel⟩
  have repeated : Readable ["time", "n"] (rows "time,n\n5,9\n6,9\n") :=
    ⟨by decide +kernel, by simp only [not_malformed_iff]; decide +kernel⟩
  refine ⟨?_, ?_, ?_, ?_⟩
  · rw [← errorOf_eq_some]
    decide +kernel
  · exact (samplesOf_columns layout table (by decide +kernel)).1 [2, 0, 1] (by decide)
      (by decide) (by decide +kernel)
  · exact ((samplesOf_columns layout table (by decide +kernel)).2 _ _ others).1
      [false, true, true, false] (by decide) (by decide +kernel)
  · exact ((samplesOf_columns layout table (by decide +kernel)).2 _ _ repeated).2 (by decide)
      (by decide +kernel)

end Table

end TimingCharts
