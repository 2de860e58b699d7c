import TimingCharts.Proofs.LoadedTables
import TimingCharts.Proofs.Plans

/-!
# Serial and parallel merge sort

The chart of merge sort by threads splits its samples in four: two methods, each with one thread
and with more. `serial_parallel_split` says that for every file that can be loaded nothing falls
between the parts or into two of them, and that the thread count in the caption is the greatest
of the file.
-/

namespace TimingCharts

/-! ## Thread counts -/

theorem one_le_of_ne_zero {n : UInt32} (h : n ≠ 0) : 1 ≤ n := by
  rw [UInt32.le_iff_toNat_le]
  have : n.toNat ≠ 0 := fun he => h (UInt32.toNat_inj.mp he)
  exact Nat.pos_of_ne_zero this

theorem two_le_of_one_lt {n : UInt32} (h : 1 < n) : 2 ≤ n := by
  rw [UInt32.lt_iff_toNat_lt] at h
  rw [UInt32.le_iff_toNat_le]
  exact h

theorem eq_or_lt_of_ne_zero {n : UInt32} (h : n ≠ 0) : n = 1 ∨ 1 < n := by
  have := one_le_of_ne_zero h
  rw [UInt32.lt_iff_toNat_lt, ← UInt32.toNat_inj]
  rw [UInt32.le_iff_toNat_le] at this
  omega

/-! ## The four parts -/

inductive Method where
  | recursive
  | iterative
  deriving DecidableEq

namespace Method

def variant : Method → String
  | recursive => "recursive"
  | iterative => "iterative"

def title : Method → String
  | recursive => "Recursive"
  | iterative => "Iterative"

def colour : Method → Colour
  | recursive => (Style.ofPalette 0 .circle).colour
  | iterative => (Style.ofPalette 1 .circle).colour

end Method

/-- One of the series of the chart: a method, with one thread or with more. -/
structure Part where
  method : Method
  parallel : Bool
  deriving DecidableEq

namespace Part

def all : List Part :=
  [⟨.recursive, false⟩, ⟨.iterative, false⟩, ⟨.recursive, true⟩, ⟨.iterative, true⟩]

theorem mem_all (part : Part) : part ∈ all := by
  obtain ⟨method, parallel⟩ := part
  cases method <;> cases parallel <;> decide

def title (part : Part) (count : String) : String :=
  if part.parallel then s!"{part.method.title} (Parallel, {count} threads)"
  else s!"{part.method.title} (Serial)"

def stroke (part : Part) : Stroke := if part.parallel then .dashed else .solid

def marker (part : Part) : Marker :=
  match part.method, part.parallel with
  | .recursive, false => .circle
  | .iterative, false => .square
  | .recursive, true => .triangle
  | .iterative, true => .cross

def selector (part : Part) : Selector where
  variant := part.method.variant
  mode := if part.parallel then .parallel else .serial

def line (part : Part) (count : String) : Benchmark.Line where
  name := part.title count
  selector := part.selector
  style := { colour := part.method.colour, marker := part.marker, stroke := part.stroke }

def Covers (part : Part) (x : Sample Float) : Prop :=
  x.variant = part.method.variant ∧
    ∃ c, x.threads = some c ∧ if part.parallel then 1 < c else c = 1

theorem lines_eq (count : String) :
    Benchmark.mergeSortThreads.lines count = all.map fun part => part.line count := rfl

theorem title_injective {part part' : Part} {count : String}
    (h : part.title count = part'.title count) : part = part' := by
  obtain ⟨m, p⟩ := part
  obtain ⟨m', p'⟩ := part'
  rw [← String.toList_inj] at h
  cases m <;> cases p <;> cases m' <;> cases p' <;>
    simp [title, Method.title, toString] at h ⊢

theorem matches_iff (part : Part) {x : Sample Float} {c : UInt32} (hc : x.threads = some c) :
    part.selector.matches x = true ↔ part.Covers x := by
  rw [part.selector.matches_iff rfl, Covers, hc]
  refine and_congr_right fun _ => ?_
  cases hp : part.parallel <;> simp [selector, hp, Mode.matches]

theorem rows_ne_nil (part : Part) (count : String) {samples : List (Sample Float)}
    (counted : ∀ x ∈ samples, ∃ n, x.threads = some n ∧ n ≠ 0) :
    (part.line count).rows samples ≠ [] ↔ ∃ x ∈ samples, part.Covers x := by
  have hrows : (part.line count).rows samples = samples.filter part.selector.matches :=
    ((part.line count).filter_matches rfl samples).symm
  rw [hrows, ne_eq, List.filter_eq_nil_iff]
  push Not
  refine exists_congr fun x => and_congr_right fun hx => ?_
  obtain ⟨n, hn, -⟩ := counted x hx
  exact part.matches_iff hn

theorem countP_matches {x : Sample Float} {c : UInt32} (hc : x.threads = some c) (h0 : c ≠ 0)
    (count : String) :
    (Benchmark.mergeSortThreads.lines count).countP (·.selector.matches x) =
      if x.variant = "recursive" ∨ x.variant = "iterative" then 1 else 0 := by
  have hmatch : ∀ part : Part, part.selector.matches x = true ↔
      x.variant = part.method.variant ∧ if part.parallel then 1 < c else c = 1 := by
    intro part
    rw [part.matches_iff hc, Covers, hc]
    simp
  rw [lines_eq, List.countP_map]
  simp only [all, List.countP_cons, List.countP_nil, Function.comp_apply, line, hmatch,
    Method.variant]
  rcases eq_or_lt_of_ne_zero h0 with rfl | h1
  · by_cases hr : x.variant = "recursive"
    · simp [hr]
    · by_cases hi : x.variant = "iterative" <;> simp [hr, hi]
  · have hne : c ≠ 1 := by
      rintro rfl
      exact absurd h1 (by decide)
    by_cases hr : x.variant = "recursive"
    · simp [hr, h1, hne]
    · by_cases hi : x.variant = "iterative" <;> simp [hr, hi, h1, hne]

end Part

/-! ## Charts of loaded files -/

theorem counted_average {samples : List (Sample Float)}
    (counted : ∀ x ∈ samples, ∃ n, x.threads = some n ∧ n ≠ 0) :
    ∀ x ∈ average samples, ∃ n, x.threads = some n ∧ n ≠ 0 := by
  intro x hx
  have hmem := (mem_map_average Measurement.threads samples x.threads).mp
    (List.mem_map_of_mem hx)
  obtain ⟨y, hy, ht⟩ := List.mem_map.mp hmem
  rw [← ht]
  exact counted y hy

/-- The chart of serial and parallel merge sort loses no sample of its two methods and counts none
twice: every averaged sample belongs to one of the four series if it is of these methods and to none
otherwise, and a series is drawn if and only if the file has a sample for it. -/
theorem serial_parallel_split {source : Path} {bytes : List UInt8} {table : Table}
    (loaded : Table.ofBytes source Benchmark.mergeSortThreads.layout bytes = .ok table) :
    let b := Benchmark.mergeSortThreads
    let plot := (b.plan table).1
    (∀ x ∈ table.samples, ∃ c, x.threads = some c ∧ 1 ≤ c) ∧
      (∀ x ∈ average table.samples,
        (b.lines (b.countText table)).countP (·.selector.matches x) =
          if x.variant = "recursive" ∨ x.variant = "iterative" then 1 else 0) ∧
      ∃ most : UInt32,
        (∃ x ∈ table.samples, x.threads = some most) ∧
        (∀ x ∈ table.samples, ∀ c, x.threads = some c → c ≤ most) ∧
        plot.caption = s!"Merge Sort: Serial vs Parallel ({most.toNat} Threads)" ∧
        (plot.series.map fun p => (p.1.name, p.2.stroke, p.2.colour)).Sublist
          (Part.all.map fun part =>
            (part.title (toString most.toNat), part.stroke, part.method.colour)) ∧
        (∀ part : Part, (∃ p ∈ plot.series, p.1.name = part.title (toString most.toNat)) ↔
          ∃ x ∈ table.samples, part.Covers x) ∧
        ∀ p ∈ plot.series, p.2.stroke = .dashed → 2 ≤ most := by
  intro b plot
  have counted : ∀ x ∈ table.samples, ∃ n, x.threads = some n ∧ n ≠ 0 :=
    Table.countOf_of_loaded loaded
  have filled := Table.filled_of_loaded loaded
  obtain ⟨most, hmost, hreached, hbound⟩ := Table.maxThreads_eq_some filled counted
  have hcount := Benchmark.countText_mergeSortThreads hmost
  have hseries : ∀ p, p ∈ plot.series ↔ ∃ part : Part, (∃ x ∈ table.samples, part.Covers x) ∧
      (part.line (toString most.toNat)).drawn
        ((part.line (toString most.toNat)).rows table.samples) = p := by
    intro p
    rw [b.mem_plan_series, hcount, Part.lines_eq]
    simp [Part.mem_all, Part.rows_ne_nil _ _ counted]
  refine ⟨?_, ?_, most, hreached, hbound, ?_, ?_, ?_, ?_⟩
  · intro x hx
    obtain ⟨n, hn, h0⟩ := counted x hx
    exact ⟨n, hn, one_le_of_ne_zero h0⟩
  · intro x hx
    obtain ⟨n, hn, h0⟩ := counted_average counted x hx
    exact Part.countP_matches hn h0 _
  · rw [Benchmark.caption_plan, hcount]
    rfl
  · have h := (b.plan_series_sublist table).map fun p => (p.1, p.2.stroke, p.2.colour)
    rw [hcount, Part.lines_eq] at h
    simp only [List.map_map] at h
    exact h
  · intro part
    constructor
    · rintro ⟨p, hp, hn⟩
      obtain ⟨part', hx, rfl⟩ := (hseries p).mp hp
      rwa [Part.title_injective hn] at hx
    · intro hx
      exact ⟨_, (hseries _).mpr ⟨part, hx, rfl⟩, rfl⟩
  · intro p hp hd
    obtain ⟨part, ⟨x, hx, -, c, hc, hpar⟩, rfl⟩ := (hseries p).mp hp
    have hparallel : part.parallel = true := by
      by_contra hn
      simp [Benchmark.Line.drawn, Part.line, Part.stroke, hn] at hd
    rw [if_pos hparallel] at hpar
    exact UInt32.le_trans (two_le_of_one_lt hpar) (hbound x hx c hc)

def splitFile : List UInt8 :=
  Text.encode "n,method,threads,time\n10,recursive,4,1\n10,iterative,1,2\n10,heap,2,3\n".toList

theorem serial_parallel_split_three_methods :
    let b := Benchmark.mergeSortThreads
    ∃ table, Table.ofBytes ⟨"t.csv"⟩ b.layout splitFile = .ok table ∧
      (∀ x ∈ average table.samples,
        (b.lines (b.countText table)).countP (·.selector.matches x) =
          if x.variant = "recursive" ∨ x.variant = "iterative" then 1 else 0) ∧
      ∃ most : UInt32, (∃ x ∈ table.samples, x.threads = some most) ∧
        (b.plan table).1.caption = s!"Merge Sort: Serial vs Parallel ({most.toNat} Threads)" := by
  intro b
  have accepted : (Table.ofBytes ⟨"t.csv"⟩ b.layout splitFile).isOk = true := by decide +kernel
  cases loaded : Table.ofBytes ⟨"t.csv"⟩ b.layout splitFile with
  | error fault =>
    rw [loaded] at accepted
    cases accepted
  | ok table =>
    obtain ⟨-, once, most, reached, -, caption, -⟩ := serial_parallel_split loaded
    exact ⟨table, rfl, once, most, reached, caption⟩

end TimingCharts
