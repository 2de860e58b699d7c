import TimingCharts.Arguments
import TimingCharts.Proofs.LoadedTables

/-!
# Flags among the arguments

Arguments are read one by one into `Matches`. `Adds` says that a list of arguments is another one
with flags added; if both are accepted, they ask for the same thing, more loudly or with the charts
shown. The reading of the longer list either keeps up with the shorter one (`Extends`) or has gone
wrong for good (`Doomed`): a flag came between an option and its value, or after the end of the
flags.
-/

namespace TimingCharts

namespace Arguments

/-- The arguments `more` are `fewer` with `k` verbosity flags and `j` times `--show` added. The
verbosity flags can be written one by one or in a bundle, alone or in front of other short ones. -/
inductive Adds : Nat → Nat → List String → List String → Prop
  | nil : Adds 0 0 [] []
  | keep {k j fewer more} (argument : String) : Adds k j fewer more →
      Adds k j (argument :: fewer) (argument :: more)
  | verbose {k j fewer more} : Adds k j fewer more → Adds (k + 1) j fewer ("--verbose" :: more)
  | bundle {k j fewer more} (n : Nat) : Adds k j fewer more →
      Adds (k + (n + 1)) j fewer (String.ofList ('-' :: List.replicate (n + 1) 'v') :: more)
  | joined {k j fewer more} (n : Nat) {c : Char} {cs : List Char} (hc : c ≠ '-') :
      Adds k j fewer more →
      Adds (k + n) j (String.ofList ('-' :: c :: cs) :: fewer)
        (String.ofList ('-' :: (List.replicate n 'v' ++ c :: cs)) :: more)
  | showing {k j fewer more} : Adds k j fewer more → Adds k (j + 1) fewer ("--show" :: more)

namespace Adds

theorem refl : ∀ arguments, Adds 0 0 arguments arguments
  | [] => .nil
  | argument :: rest => .keep argument (refl rest)

theorem append {k j : Nat} {flags : List String} (h : Adds k j [] flags)
    (arguments : List String) : Adds k j arguments (flags ++ arguments) := by
  generalize hnil : [] = fewer at h
  induction h with
  | nil => exact refl arguments
  | keep => cases hnil
  | joined => cases hnil
  | verbose _ ih => exact .verbose (ih hnil)
  | bundle n _ ih => exact .bundle n (ih hnil)
  | showing _ ih => exact .showing (ih hnil)

theorem insert {k j : Nat} {flags : List String} (h : Adds k j [] flags)
    (first rest : List String) : Adds k j (first ++ rest) (first ++ (flags ++ rest)) := by
  induction first with
  | nil => exact h.append rest
  | cons argument _ ih => exact .keep argument ih

end Adds

namespace Matches

/-! ## What one argument does -/

def value (m : Matches) : Single → Option String
  | .config => m.config
  | .directory => m.directory
  | .showing => some ""

def louder (m : Matches) (n : Nat) : Matches :=
  { m with verbosity := m.verbosity + n, pending := none }

theorem louder_louder (m : Matches) (k n : Nat) : (m.louder k).louder n = m.louder (k + n) := by
  simp [louder, Nat.add_assoc]

theorem option_louder (m : Matches) (o : Single) (value : Option (List Char)) :
    (m.louder 0).option o value = m.option o value := by
  cases value <;> rfl

inductive Reads (m : Matches) (argument : String) : Matches → Prop
  | chart : Reads m argument { m with charts := m.charts ++ [argument] }
  | chartsOnly (ends : argument = "--") : Reads m argument { m with chartsOnly := true }
  | value {o : Single} (waits : m.pending = some o) : Reads m argument (m.setValue o argument)
  | louder (k : Nat) : Reads m argument (m.louder k)
  | shown : Reads m argument { m.name .showing with showing := true }
  | option (k : Nat) (o : Single) (value : Option (List Char)) (valued : o ≠ .showing) :
      Reads m argument ((m.louder k).option o value)

theorem short_eq_ok {m n : Matches} {cs : List Char} (h : m.short cs = .ok n) :
    cs = [] ∧ n = m ∨ (∃ k, n = m.louder k) ∨
      ∃ k value, n = (m.louder k).option .directory value := by
  induction cs generalizing m with
  | nil =>
    cases h
    exact Or.inl ⟨rfl, rfl⟩
  | cons c cs ih =>
    unfold short at h
    split at h
    · next heq => cases heq
    · next heq =>
      cases h
      exact Or.inr (Or.inr ⟨0, _, (option_louder m _ _).symm⟩)
    · next heq =>
      cases heq
      rcases ih h with ⟨rfl, rfl⟩ | ⟨k, rfl⟩ | ⟨k, value, rfl⟩
      · exact Or.inr (Or.inl ⟨1, rfl⟩)
      · exact Or.inr (Or.inl ⟨1 + k, louder_louder m 1 k⟩)
      · refine Or.inr (Or.inr ⟨1 + k, value, ?_⟩)
        rw [← louder_louder m 1 k]
        rfl
    · cases h
    · cases h
    · cases h

theorem reads_long {m n : Matches} {text : List Char} {a : String} (h : m.long text = .ok n) :
    Reads m a n := by
  unfold long at h
  dsimp only at h
  split at h
  · cases h
    rw [← option_louder]
    exact .option 0 .config _ (by decide)
  · cases h
    rw [← option_louder]
    exact .option 0 .directory _ (by decide)
  · cases h
    exact .shown
  · cases h
    exact .louder 1
  · cases h
  · cases h
  · cases h

theorem reads_step {m n : Matches} {a : String} (h : m.step a = .ok n) : Reads m a n := by
  unfold step at h
  dsimp only at h
  by_cases hc : m.chartsOnly = true
  · rw [if_pos hc] at h
    cases h
    exact .chart
  · rw [if_neg hc] at h
    split at h
    · next heq =>
      cases h
      exact .chartsOnly (String.toList_inj.mp heq)
    · exact reads_long h
    · rcases short_eq_ok h with ⟨hnil, -⟩ | ⟨k, rfl⟩ | ⟨k, value, rfl⟩
      · cases hnil
      · exact .louder k
      · exact .option k .directory value (by decide)
    · split at h
      · next o ho =>
        cases h
        exact .value ho
      · cases h
        exact .chart

theorem step_verbose {m : Matches} (h : m.chartsOnly = false) :
    m.step "--verbose" = .ok (m.louder 1) := by
  simp only [step, h]
  rfl

theorem step_show {m : Matches} (h : m.chartsOnly = false) :
    m.step "--show" = .ok { m.name .showing with showing := true } := by
  simp only [step, h]
  rfl

theorem step_short {m : Matches} (h : m.chartsOnly = false) {c : Char} (hc : c ≠ '-')
    (cs : List Char) : m.step (String.ofList ('-' :: c :: cs)) = m.short (c :: cs) := by
  unfold step
  simp only [h, String.toList_ofList]
  split <;> simp_all

theorem step_chartsOnly {m : Matches} (h : m.chartsOnly = true) (a : String) :
    m.step a = .ok { m with charts := m.charts ++ [a] } := by
  simp [step, h]

theorem short_louder_zero (m : Matches) (c : Char) (cs : List Char) :
    (m.louder 0).short (c :: cs) = m.short (c :: cs) := by
  conv_lhs => unfold short
  conv_rhs => unfold short
  split
  · next heq => cases heq
  · rw [option_louder]
  · rfl
  · rfl
  · rfl
  · rfl

theorem short_louder (m : Matches) (n : Nat) {c : Char} {cs : List Char} :
    m.short (List.replicate n 'v' ++ c :: cs) = (m.louder n).short (c :: cs) := by
  induction n generalizing m with
  | zero => exact (short_louder_zero m c cs).symm
  | succ n ih =>
    rw [List.replicate_succ, List.cons_append, short]
    show (m.louder 1).short _ = _
    rw [ih, louder_louder, Nat.add_comm]

theorem short_replicate (m : Matches) (n : Nat) :
    m.short (List.replicate (n + 1) 'v') = .ok (m.louder (n + 1)) := by
  induction n generalizing m with
  | zero => rfl
  | succ n ih =>
    rw [List.replicate_succ, short]
    show (m.louder 1).short _ = _
    rw [ih, louder_louder, Nat.add_comm]

theorem step_bundle (n : Nat) {m : Matches} (h : m.chartsOnly = false) :
    m.step (String.ofList ('-' :: List.replicate (n + 1) 'v')) = .ok (m.louder (n + 1)) :=
  (step_short h (by decide) _).trans (short_replicate m n)

/-! ## Keeping up -/

/-- `m'` is `m` with `k` verbosity flags and `j` times `--show` more. -/
structure Extends (k j : Nat) (m m' : Matches) : Prop where
  config : m'.config = m.config
  directory : m'.directory = m.directory
  showing : m'.showing = (m.showing || decide (0 < j))
  verbosity : m'.verbosity = m.verbosity + k
  charts : m'.charts = m.charts
  named : ∀ a, m'.named.count a = m.named.count a + if a = .showing then j else 0
  pending : m'.pending = m.pending
  chartsOnly : m'.chartsOnly = m.chartsOnly

namespace Extends

variable {k j : Nat} {m m' n : Matches}

theorem refl (m : Matches) : Extends 0 0 m m :=
  ⟨rfl, rfl, by simp, rfl, rfl, by simp, rfl, rfl⟩

theorem value (h : Extends k j m m') (o : Single) : m'.value o = m.value o := by
  cases o
  · exact h.config
  · exact h.directory
  · rfl

theorem louder (h : Extends k j m m') (n : Nat) : Extends k j (m.louder n) (m'.louder n) :=
  ⟨h.config, h.directory, h.showing, by simp [Matches.louder, h.verbosity]; omega, h.charts,
    h.named, rfl, h.chartsOnly⟩

theorem name (h : Extends k j m m') (a : Single) : Extends k j (m.name a) (m'.name a) := by
  refine ⟨h.config, h.directory, h.showing, h.verbosity, h.charts, ?_, rfl, h.chartsOnly⟩
  intro b
  simp only [Matches.name, List.count_append, h.named b]
  omega

theorem setValue (h : Extends k j m m') (o : Single) (value : String) :
    Extends k j (m.setValue o value) (m'.setValue o value) := by
  cases o with
  | config =>
    exact ⟨rfl, h.directory, h.showing, h.verbosity, h.charts, h.named, rfl, h.chartsOnly⟩
  | directory =>
    exact ⟨h.config, rfl, h.showing, h.verbosity, h.charts, h.named, rfl, h.chartsOnly⟩
  | showing => exact h

theorem option (h : Extends k j m m') (o : Single) (value : Option (List Char)) :
    Extends k j (m.option o value) (m'.option o value) := by
  have hn := h.name o
  cases value with
  | some value => exact hn.setValue o _
  | none =>
    exact ⟨hn.config, hn.directory, hn.showing, hn.verbosity, hn.charts, hn.named, rfl,
      hn.chartsOnly⟩

theorem shown (h : Extends k j m m') :
    Extends k j { m.name .showing with showing := true }
      { m'.name .showing with showing := true } := by
  have hn := h.name .showing
  exact ⟨hn.config, hn.directory, by simp, hn.verbosity, hn.charts, hn.named, rfl, hn.chartsOnly⟩

theorem short (h : Extends k j m m') {cs : List Char} (hs : m.short cs = .ok n) :
    ∃ n', m'.short cs = .ok n' ∧ Extends k j n n' := by
  induction cs generalizing m m' with
  | nil =>
    cases hs
    exact ⟨m', rfl, h⟩
  | cons c cs ih =>
    unfold Matches.short at hs ⊢
    split at hs
    · next heq => cases heq
    · next heq =>
      cases hs
      cases heq
      exact ⟨_, rfl, h.option _ _⟩
    · next heq =>
      cases heq
      exact ih (h.louder 1) hs
    · cases hs
    · cases hs
    · cases hs

theorem long (h : Extends k j m m') {text : List Char} (hs : m.long text = .ok n) :
    ∃ n', m'.long text = .ok n' ∧ Extends k j n n' := by
  unfold Matches.long at hs ⊢
  dsimp only at hs ⊢
  generalize String.ofList _ = word at hs ⊢
  split at hs
  · cases hs
    exact ⟨_, rfl, h.option _ _⟩
  · cases hs
    exact ⟨_, rfl, h.option _ _⟩
  · cases hs
    exact ⟨_, rfl, h.shown⟩
  · cases hs
    exact ⟨_, rfl, h.louder 1⟩
  · cases hs
  · cases hs
  · cases hs

theorem chart (h : Extends k j m m') (a : String) :
    Extends k j { m with charts := m.charts ++ [a] } { m' with charts := m'.charts ++ [a] } :=
  ⟨h.config, h.directory, h.showing, h.verbosity, by simp [h.charts], h.named, h.pending,
    h.chartsOnly⟩

theorem step (h : Extends k j m m') {a : String} (hs : m.step a = .ok n) :
    ∃ n', m'.step a = .ok n' ∧ Extends k j n n' := by
  unfold Matches.step at hs ⊢
  dsimp only at hs ⊢
  by_cases hc : m.chartsOnly = true
  · rw [if_pos hc] at hs
    rw [if_pos (h.chartsOnly.trans hc)]
    cases hs
    exact ⟨_, rfl, h.chart a⟩
  · rw [if_neg hc] at hs
    rw [if_neg (h.chartsOnly ▸ hc)]
    split at hs
    · cases hs
      exact ⟨_, rfl, h.config, h.directory, h.showing, h.verbosity, h.charts, h.named, h.pending,
        rfl⟩
    · exact h.long hs
    · exact h.short hs
    · have hchart := h.chart a
      rw [h.pending] at hchart ⊢
      split at hs
      · cases hs
        exact ⟨_, rfl, h.setValue _ _⟩
      · cases hs
        exact ⟨_, rfl, hchart⟩

theorem foldlM (h : Extends k j m m') {l : List String} (hs : l.foldlM Matches.step m = .ok n) :
    ∃ n', l.foldlM Matches.step m' = .ok n' ∧ Extends k j n n' := by
  induction l generalizing m m' with
  | nil =>
    cases hs
    exact ⟨m', rfl, h⟩
  | cons a l ih =>
    rw [List.foldlM_cons, bind_eq_ok] at hs
    obtain ⟨m₁, h₁, hs⟩ := hs
    obtain ⟨m₁', h₁', he⟩ := h.step h₁
    obtain ⟨n', hn', hn⟩ := ih he hs
    refine ⟨n', ?_, hn⟩
    rw [List.foldlM_cons, h₁']
    exact hn'

end Extends

theorem foldlM_preserves {P : Matches → Prop} {l : List String}
    (hstep : ∀ a ∈ l, ∀ m n, P m → Reads m a n → P n) {m n : Matches} (h : P m)
    (hs : l.foldlM Matches.step m = .ok n) : P n := by
  induction l generalizing m with
  | nil =>
    cases hs
    exact h
  | cons a l ih =>
    rw [List.foldlM_cons, bind_eq_ok] at hs
    obtain ⟨m₁, h₁, hs⟩ := hs
    have hm₁ := hstep a (List.mem_cons_self ..) m m₁ h (reads_step h₁)
    exact ih (fun b hb => hstep b (List.mem_cons_of_mem _ hb)) hm₁ hs

/-! ## Going wrong -/

section
variable {m n : Matches} {o o' : Single}

@[simp] theorem named_setValue (v : String) : (m.setValue o v).named = m.named := by
  cases o <;> rfl

@[simp] theorem charts_setValue (v : String) : (m.setValue o v).charts = m.charts := by
  cases o <;> rfl

@[simp] theorem chartsOnly_setValue (v : String) :
    (m.setValue o v).chartsOnly = m.chartsOnly := by
  cases o <;> rfl

@[simp] theorem showing_setValue (v : String) : (m.setValue o v).showing = m.showing := by
  cases o <;> rfl

theorem value_setValue (v : String) (h : o' ≠ o) : (m.setValue o v).value o' = m.value o' := by
  cases o <;> cases o' <;> simp_all [Matches.setValue, value]

theorem pending_setValue (v : String) (h : o ≠ .showing) : (m.setValue o v).pending = none := by
  cases o <;> simp_all [Matches.setValue]

@[simp] theorem named_option (v : Option (List Char)) : (m.option o v).named = m.named ++ [o] := by
  cases v <;> simp [Matches.option, Matches.name]

@[simp] theorem charts_option (v : Option (List Char)) : (m.option o v).charts = m.charts := by
  cases v <;> simp [Matches.option, Matches.name]

@[simp] theorem chartsOnly_option (v : Option (List Char)) :
    (m.option o v).chartsOnly = m.chartsOnly := by
  cases v <;> simp [Matches.option, Matches.name]

@[simp] theorem showing_option (v : Option (List Char)) : (m.option o v).showing = m.showing := by
  cases v <;> simp [Matches.option, Matches.name]

theorem value_option (v : Option (List Char)) (h : o' ≠ o) :
    (m.option o v).value o' = m.value o' := by
  cases v with
  | some v => exact value_setValue _ h
  | none => rfl

theorem pending_option (v : Option (List Char)) (h : o ≠ .showing) :
    (m.option o v).pending = none ∨ (m.option o v).pending = some o ∧ v = none := by
  cases v with
  | some v => exact Or.inl (pending_setValue _ h)
  | none => exact Or.inr ⟨rfl, rfl⟩

end

/-- An option that waits for its value has been named, and one that has a value too. -/
structure Coherent (m : Matches) : Prop where
  waiting : ∀ o, m.pending = some o →
    o ≠ .showing ∧ o ∈ m.named ∧ (m.value o = none ∨ 2 ≤ m.named.count o)
  valued : ∀ o, o ≠ .showing → m.value o ≠ none → o ∈ m.named
  shown : m.showing = false → .showing ∉ m.named

theorem coherent_start : Coherent {} where
  waiting o h := by cases h
  valued o ho h := by cases o <;> simp_all [value]
  shown _ := by simp

theorem Coherent.reads {m n : Matches} (h : Coherent m) {a : String} (hr : Reads m a n) :
    Coherent n := by
  cases hr with
  | chart => exact ⟨h.waiting, h.valued, h.shown⟩
  | chartsOnly => exact ⟨h.waiting, h.valued, h.shown⟩
  | louder k => exact ⟨nofun, h.valued, h.shown⟩
  | shown =>
    refine ⟨nofun, ?_, nofun⟩
    intro o ho hv
    exact List.mem_append_left _ (h.valued o ho hv)
  | @value o waits =>
    obtain ⟨ho, hnamed, -⟩ := h.waiting o waits
    refine ⟨?_, ?_, ?_⟩
    · intro o' hp
      rw [pending_setValue _ ho] at hp
      cases hp
    · intro o' ho' hv
      rw [named_setValue]
      by_cases he : o' = o
      · exact he ▸ hnamed
      · rw [value_setValue _ he] at hv
        exact h.valued o' ho' hv
    · rw [showing_setValue, named_setValue]
      exact h.shown
  | option k o v valued =>
    refine ⟨?_, ?_, ?_⟩
    · intro o' hp
      rcases pending_option (m := m.louder k) v valued with hn | ⟨hs, rfl⟩
      · rw [hn] at hp
        cases hp
      · rw [hs] at hp
        cases hp
        refine ⟨valued, by simp, ?_⟩
        -- an option that had a value is named twice now
        by_cases hv : m.value o = none
        · exact Or.inl hv
        · have := List.count_pos_iff.mpr (h.valued o valued hv)
          right
          simp only [named_option, List.count_append, List.count_singleton_self, Matches.louder]
          omega
    · intro o' ho' hv
      rw [named_option]
      by_cases he : o' = o
      · simp [he]
      · rw [value_option _ he] at hv
        exact List.mem_append_left _ (h.valued o' ho' hv)
    · intro hs
      rw [showing_option] at hs
      have := h.shown hs
      simp [Matches.louder, this, Ne.symm valued]

theorem Coherent.foldlM {m n : Matches} (h : Coherent m) {l : List String}
    (hs : l.foldlM Matches.step m = .ok n) : Coherent n :=
  foldlM_preserves (fun _ _ _ _ hm hr => hm.reads hr) h hs

theorem chartsOnly_foldlM {m n : Matches} {l : List String} (hl : "--" ∉ l)
    (h : m.chartsOnly = false) (hs : l.foldlM Matches.step m = .ok n) : n.chartsOnly = false := by
  apply foldlM_preserves (P := fun m => m.chartsOnly = false) ?_ h hs
  intro a ha m n hm hr
  cases hr with
  | chart => exact hm
  | chartsOnly ends => exact absurd (ends ▸ ha) hl
  | value => simpa using hm
  | louder => exact hm
  | shown => exact hm
  | option => simpa [Matches.louder] using hm

/-- Whatever follows, the arguments are refused in the end. -/
inductive Doomed (m : Matches) : Prop
  | chart {a : String} (mem : a ∈ m.charts) (unknown : Choice.ofName? a = none)
  | twice {o : Single} (count : 2 ≤ m.named.count o)
  | lacking {o : Single} (valued : o ≠ .showing) (mem : o ∈ m.named) (none : m.value o = none)
      (skipped : m.pending ≠ some o)

theorem Doomed.reads {m n : Matches} (h : Doomed m) (hm : Coherent m) {a : String}
    (hr : Reads m a n) : Doomed n := by
  cases h with
  | chart mem unknown =>
    cases hr with
    | chart => exact .chart (List.mem_append_left _ mem) unknown
    | chartsOnly => exact .chart mem unknown
    | value => exact .chart (by simpa using mem) unknown
    | louder => exact .chart mem unknown
    | shown => exact .chart mem unknown
    | option => exact .chart (by simpa [Matches.louder] using mem) unknown
  | @twice o count =>
    cases hr with
    | chart => exact .twice count
    | chartsOnly => exact .twice count
    | value => exact .twice (by simpa using count)
    | louder => exact .twice count
    | shown =>
      apply Doomed.twice (o := o)
      simp only [Matches.name, List.count_append]
      omega
    | option =>
      apply Doomed.twice (o := o)
      simp only [named_option, List.count_append, Matches.louder]
      omega
  | @lacking o valued mem none skipped =>
    cases hr with
    | chart => exact .lacking valued mem none skipped
    | chartsOnly => exact .lacking valued mem none skipped
    | louder => exact .lacking valued mem none nofun
    | shown => exact .lacking valued (List.mem_append_left _ mem) none nofun
    | @value o' waits =>
      have hne : o ≠ o' := by
        rintro rfl
        exact skipped waits
      have ho' := (hm.waiting o' waits).1
      apply Doomed.lacking valued
      · simpa using mem
      · rwa [value_setValue _ hne]
      · rw [pending_setValue _ ho']
        nofun
    | option k o' v valued' =>
      by_cases hne : o = o'
      · subst hne
        apply Doomed.twice (o := o)
        have := List.count_pos_iff.mpr mem
        simp only [named_option, List.count_append, List.count_singleton_self, Matches.louder]
        omega
      · apply Doomed.lacking valued
        · simp [Matches.louder, mem]
        · rw [value_option _ hne]
          exact none
        · rcases pending_option (m := m.louder k) v valued' with hp | ⟨hp, -⟩
          · rw [hp]
            nofun
          · rw [hp]
            simpa using Ne.symm hne

theorem Doomed.foldlM {m n : Matches} (h : Doomed m) (hm : Coherent m) {l : List String}
    (hs : l.foldlM Matches.step m = .ok n) : Doomed n := by
  have hboth : Coherent n ∧ Doomed n := by
    apply foldlM_preserves (P := fun m => Coherent m ∧ Doomed m) ?_ ⟨hm, h⟩ hs
    intro a _ m n ⟨hm, hd⟩ hr
    exact ⟨hm.reads hr, hd.reads hm hr⟩
  exact hboth.2

theorem Coherent.interrupted {m n : Matches} (h : Coherent m) {o : Single}
    (waits : m.pending = some o) (hp : n.pending = none) (hn : m.named.Sublist n.named)
    (hv : n.value o = m.value o) : Doomed n := by
  obtain ⟨valued, mem, hnone | hcount⟩ := h.waiting o waits
  · apply Doomed.lacking valued (hn.subset mem) (hv.trans hnone)
    rw [hp]
    nofun
  · exact .twice (Nat.le_trans hcount (hn.count_le o))

/-! ## Reading more flags -/

theorem not_chart_of_hyphen {a : String} (h : a.toList.head? = some '-') :
    Choice.ofName? a = none := by
  have plain : ∀ name ∈ choiceNames, name.toList.head? ≠ some '-' := by decide
  have hne : ∀ name ∈ choiceNames, a ≠ name := by
    rintro name hname rfl
    exact plain a hname h
  unfold Choice.ofName?
  rw [if_neg (hne "all" (by decide)), Option.map_eq_none_iff, Benchmark.ofName?,
    List.find?_eq_none]
  intro b hb
  have := hne b.name (List.mem_cons_of_mem _ (List.mem_map_of_mem hb))
  simpa using Ne.symm this

section
variable {k j : Nat} {m m' n' : Matches} {a : String}

theorem doomed_of_chartsOnly (h : m.chartsOnly = true) (ha : a.toList.head? = some '-')
    (hs : m.step a = .ok n') : Doomed n' := by
  rw [step_chartsOnly h] at hs
  cases hs
  exact .chart (List.mem_append_right _ (List.mem_singleton_self a)) (not_chart_of_hyphen ha)

theorem Extends.louder_right (h : Extends k j m m') (hp : m'.pending = none) (n : Nat) :
    Extends (k + n) j m (m'.louder n) := by
  refine ⟨h.config, h.directory, h.showing, ?_, h.charts, h.named, ?_, h.chartsOnly⟩
  · simp only [Matches.louder, h.verbosity, Nat.add_assoc]
  · exact hp.symm.trans h.pending

theorem Extends.shown_right (h : Extends k j m m') (hp : m'.pending = none) :
    Extends k (j + 1) m { m'.name .showing with showing := true } := by
  refine ⟨h.config, h.directory, by simp, h.verbosity, h.charts, ?_, ?_, h.chartsOnly⟩
  · intro o
    simp only [Matches.name, List.count_append, h.named o]
    cases o <;> simp [Nat.add_assoc]
  · exact hp.symm.trans h.pending

theorem Extends.verbose (h : Extends k j m m') (hc : Coherent m') (n : Nat)
    (ha : a.toList.head? = some '-') (hflag : m'.chartsOnly = false → m'.step a = .ok (m'.louder n))
    (hs : m'.step a = .ok n') : Extends (k + n) j m n' ∨ Doomed n' := by
  by_cases hco : m'.chartsOnly = true
  · exact Or.inr (doomed_of_chartsOnly hco ha hs)
  rw [hflag (by simpa using hco)] at hs
  cases hs
  cases hp : m'.pending with
  | some o => exact Or.inr (hc.interrupted hp rfl (.refl _) rfl)
  | none => exact Or.inl (h.louder_right hp n)

theorem Extends.show (h : Extends k j m m') (hc : Coherent m')
    (hs : m'.step "--show" = .ok n') : Extends k (j + 1) m n' ∨ Doomed n' := by
  by_cases hco : m'.chartsOnly = true
  · exact Or.inr (doomed_of_chartsOnly hco (by decide) hs)
  rw [step_show (by simpa using hco)] at hs
  cases hs
  cases hp : m'.pending with
  | some o => exact Or.inr (hc.interrupted hp rfl (List.sublist_append_left ..) rfl)
  | none => exact Or.inl (h.shown_right hp)

theorem Extends.joined (h : Extends k j m m') (n : Nat) {c : Char} (hc : c ≠ '-') {cs : List Char}
    {n₀ : Matches} (hs : m.step (String.ofList ('-' :: c :: cs)) = .ok n₀)
    (hs' : m'.step (String.ofList ('-' :: (List.replicate n 'v' ++ c :: cs))) = .ok n') :
    Extends (k + n) j n₀ n' ∨ Doomed n' := by
  by_cases hco : m'.chartsOnly = true
  · exact Or.inr (doomed_of_chartsOnly hco (by simp) hs')
  have hco' : m'.chartsOnly = false := by simpa using hco
  have hshort : m'.step (String.ofList ('-' :: (List.replicate n 'v' ++ c :: cs))) =
      m'.short (List.replicate n 'v' ++ c :: cs) := by
    cases n with
    | zero => exact step_short hco' hc cs
    | succ n => exact step_short hco' (by decide) _
  rw [hshort, short_louder] at hs'
  rw [step_short (h.chartsOnly ▸ hco') hc, ← short_louder_zero] at hs
  -- the values of the flags that follow are the same, whatever waits for one before
  have he : Extends (k + n) j (m.louder 0) (m'.louder n) :=
    ⟨h.config, h.directory, h.showing, by simp [Matches.louder, h.verbosity, Nat.add_assoc],
      h.charts, h.named, rfl, h.chartsOnly⟩
  obtain ⟨n₁, h₁, hn₁⟩ := he.short hs
  rw [h₁] at hs'
  cases hs'
  exact Or.inl hn₁

end

theorem Extends.flags {k j k₀ j₀ : Nat} {flags : List String} (ha : Adds k j [] flags)
    {m m' : Matches} (h : Extends k₀ j₀ m m') (hco : m.chartsOnly = false)
    (hp : m.pending = none) :
    ∃ n, flags.foldlM Matches.step m' = .ok n ∧ Extends (k₀ + k) (j₀ + j) m n := by
  have hco' := h.chartsOnly.trans hco
  have hp' := h.pending.trans hp
  generalize hnil : [] = fewer at ha
  induction ha generalizing k₀ j₀ m' with
  | nil => exact ⟨m', rfl, h⟩
  | keep => cases hnil
  | joined => cases hnil
  | verbose _ ih =>
    rw [List.foldlM_cons, step_verbose hco', Nat.add_comm _ 1, ← Nat.add_assoc]
    exact ih (h.louder_right hp' 1) hco' rfl hnil
  | bundle i _ ih =>
    rw [List.foldlM_cons, step_bundle i hco', Nat.add_comm _ (i + 1), ← Nat.add_assoc]
    exact ih (h.louder_right hp' (i + 1)) hco' rfl hnil
  | showing _ ih =>
    rw [List.foldlM_cons, step_show hco', Nat.add_comm _ 1, ← Nat.add_assoc]
    exact ih (h.shown_right hp') hco' rfl hnil

/-- The longer list keeps up with the shorter one, or is refused in the end. -/
theorem Extends.adds {k j k₀ j₀ : Nat} {fewer more : List String} (ha : Adds k j fewer more)
    {m m' n n' : Matches} (h : Extends k₀ j₀ m m') (hc : Coherent m')
    (hf : fewer.foldlM Matches.step m = .ok n) (hm : more.foldlM Matches.step m' = .ok n') :
    Extends (k₀ + k) (j₀ + j) n n' ∨ Doomed n' := by
  -- the flags read so far are counted in `k₀` and `j₀`
  induction ha generalizing k₀ j₀ m m' with
  | nil =>
    cases hf
    cases hm
    exact Or.inl h
  | keep a _ ih =>
    rw [List.foldlM_cons, bind_eq_ok] at hf hm
    obtain ⟨m₁, h₁, hf⟩ := hf
    obtain ⟨m₁', h₁', hm⟩ := hm
    obtain ⟨m₂, h₂, he⟩ := h.step h₁
    rw [h₁'] at h₂
    cases h₂
    exact ih he (hc.reads (reads_step h₁')) hf hm
  | verbose _ ih =>
    rw [List.foldlM_cons, bind_eq_ok] at hm
    obtain ⟨m₁', h₁', hm⟩ := hm
    have hc₁ := hc.reads (reads_step h₁')
    rcases h.verbose hc 1 (by decide) step_verbose h₁' with he | hd
    · rw [Nat.add_comm _ 1, ← Nat.add_assoc]
      exact ih he hc₁ hf hm
    · exact Or.inr (hd.foldlM hc₁ hm)
  | bundle i _ ih =>
    rw [List.foldlM_cons, bind_eq_ok] at hm
    obtain ⟨m₁', h₁', hm⟩ := hm
    have hc₁ := hc.reads (reads_step h₁')
    rcases h.verbose hc (i + 1) (by simp) (step_bundle i) h₁' with he | hd
    · rw [Nat.add_comm _ (i + 1), ← Nat.add_assoc]
      exact ih he hc₁ hf hm
    · exact Or.inr (hd.foldlM hc₁ hm)
  | joined i hchar _ ih =>
    rw [List.foldlM_cons, bind_eq_ok] at hf hm
    obtain ⟨m₁, h₁, hf⟩ := hf
    obtain ⟨m₁', h₁', hm⟩ := hm
    have hc₁ := hc.reads (reads_step h₁')
    rcases h.joined i hchar h₁ h₁' with he | hd
    · rw [Nat.add_comm _ i, ← Nat.add_assoc]
      exact ih he hc₁ hf hm
    · exact Or.inr (hd.foldlM hc₁ hm)
  | showing _ ih =>
    rw [List.foldlM_cons, bind_eq_ok] at hm
    obtain ⟨m₁', h₁', hm⟩ := hm
    have hc₁ := hc.reads (reads_step h₁')
    rcases h.show hc h₁' with he | hd
    · rw [Nat.add_comm _ 1, ← Nat.add_assoc]
      exact ih he hc₁ hf hm
    · exact Or.inr (hd.foldlM hc₁ hm)

/-! ## The end of the arguments -/

theorem check_eq_ok {m : Matches} {o : Single} :
    m.check o = .ok () ↔ m.lacks o = false ∧ m.named.count o ≤ 1 := by
  unfold check
  by_cases hl : m.lacks o = true
  · simp [hl]
  · by_cases hc : m.named.count o > 1
    · simp [hl, hc]
    · simp [hl, hc]
      omega

theorem lacks_eq_false {m : Matches} {o : Single} :
    m.lacks o = false ↔ (o ∈ m.named → m.value o ≠ none) := by
  cases o <;> simp [lacks, value, Option.isSome_iff_ne_none]

theorem checks_eq_ok {m : Matches} :
    [Single.config, .directory, .showing].forM m.check = .ok () ↔
      ∀ o, m.lacks o = false ∧ m.named.count o ≤ 1 := by
  have hforM : [Single.config, .directory, .showing].forM m.check = .ok () ↔
      m.check .config = .ok () ∧ m.check .directory = .ok () ∧ m.check .showing = .ok () := by
    simp [List.forM_cons, bind_eq_ok, Unique.exists_iff]
  rw [hforM]
  simp only [← check_eq_ok]
  constructor
  · rintro ⟨hc, hd, hs⟩ o
    cases o <;> assumption
  · intro h
    exact ⟨h _, h _, h _⟩

theorem finish_eq_ok {m : Matches} {i : Invocation} :
    m.finish = .ok i ↔ (∀ o, m.lacks o = false ∧ m.named.count o ≤ 1) ∧
      ∃ charts, m.charts.mapM choice = .ok charts ∧
        i = ⟨m.config, m.directory, m.showing, m.verbosity, charts⟩ := by
  unfold finish
  dsimp only
  split
  · next o ho =>
    have hl : m.lacks o = true := (Option.filter_eq_some_iff.mp ho).2
    constructor
    · intro h
      cases h
    · rintro ⟨h, -⟩
      rw [(h o).1] at hl
      cases hl
  · simp only [bind_eq_ok, pure_eq_ok, ← checks_eq_ok, Unique.exists_iff, eq_comm (a := i)]

theorem Coherent.pending_of_finish {m : Matches} (h : Coherent m) {i : Invocation}
    (hi : m.finish = .ok i) : m.pending = none := by
  have hchecks := (finish_eq_ok.mp hi).1
  cases hp : m.pending with
  | none => rfl
  | some o =>
    obtain ⟨-, mem, hnone | hcount⟩ := h.waiting o hp
    · exact absurd hnone (lacks_eq_false.mp (hchecks o).1 mem)
    · have := (hchecks o).2
      omega

theorem Doomed.finish_ne_ok {m : Matches} (h : Doomed m) (i : Invocation) : m.finish ≠ .ok i := by
  rw [Ne, finish_eq_ok]
  rintro ⟨hchecks, charts, hcharts, -⟩
  cases h with
  | @twice o count =>
    have := (hchecks o).2
    omega
  | lacking _ mem hnone => exact lacks_eq_false.mp (hchecks _).1 mem hnone
  | chart mem unknown =>
    obtain ⟨c, -, hc⟩ := exists_of_mem_forall₂ (mapM_eq_ok.mp hcharts).flip mem
    have hc : choice _ = .ok c := hc
    rw [choice, unknown] at hc
    cases hc

end Matches

end Arguments

def Invocation.withFlags (i : Invocation) (k j : Nat) : Invocation :=
  { i with verbosity := i.verbosity + k, showing := i.showing || decide (0 < j) }

namespace Arguments

open Matches

section
variable {k j : Nat} {m m' : Matches} {i i' : Invocation}

theorem Matches.Extends.eq_withFlags (h : Extends k j m m') (hi : m.finish = .ok i)
    (hi' : m'.finish = .ok i') : i' = i.withFlags k j := by
  rw [finish_eq_ok] at hi hi'
  obtain ⟨-, charts, hcharts, rfl⟩ := hi
  obtain ⟨-, charts', hcharts', rfl⟩ := hi'
  rw [h.charts, hcharts] at hcharts'
  cases hcharts'
  simp [Invocation.withFlags, h.config, h.directory, h.showing, h.verbosity]

theorem Matches.Extends.exists_finish (h : Extends k j m m') (hi : m.finish = .ok i)
    (hj : j = 0 ∨ j = 1 ∧ .showing ∉ m.named) : ∃ i', m'.finish = .ok i' := by
  simp only [finish_eq_ok] at hi ⊢
  obtain ⟨hchecks, charts, hcharts, -⟩ := hi
  refine ⟨_, ?_, charts, h.charts ▸ hcharts, rfl⟩
  intro o
  obtain ⟨hl, hcount⟩ := hchecks o
  have hnamed := h.named o
  by_cases ho : o = .showing
  · subst ho
    refine ⟨lacks_eq_false.mpr fun _ => nofun, ?_⟩
    rw [hnamed, if_pos rfl]
    rcases hj with rfl | ⟨rfl, hs⟩
    · exact hcount
    · rw [List.count_eq_zero.mpr hs]
  · rw [if_neg ho, Nat.add_zero] at hnamed
    refine ⟨lacks_eq_false.mpr ?_, hnamed ▸ hcount⟩
    rw [h.value o, ← List.count_pos_iff, hnamed, List.count_pos_iff]
    exact lacks_eq_false.mp hl

end

section
variable {k j : Nat} {program : String} {fewer more : List String} {i i' : Invocation}

theorem parse_eq_ok {arguments : List String} : parse (program :: arguments) = .ok i ↔
    ∃ m, arguments.foldlM Matches.step {} = .ok m ∧ m.finish = .ok i := by
  rw [parse, mapError_eq_ok, bind_eq_ok]

theorem parse_adds (ha : Adds k j fewer more) (hf : parse (program :: fewer) = .ok i)
    (hm : parse (program :: more) = .ok i') : i' = i.withFlags k j := by
  obtain ⟨m, hm₁, hi⟩ := parse_eq_ok.mp hf
  obtain ⟨m', hm₁', hi'⟩ := parse_eq_ok.mp hm
  rcases (Extends.refl {}).adds ha coherent_start hm₁ hm₁' with he | hd
  · rw [Nat.zero_add, Nat.zero_add] at he
    exact he.eq_withFlags hi hi'
  · exact absurd hi' (hd.finish_ne_ok i')

theorem parse_flags_insert {flags first rest : List String} (ha : Adds k j [] flags)
    (hfirst : ∃ i₀, parse (program :: first) = .ok i₀) (hends : "--" ∉ first)
    (hf : parse (program :: (first ++ rest)) = .ok i) (hj : j = 0 ∨ j = 1 ∧ i.showing = false) :
    ∃ i', parse (program :: (first ++ (flags ++ rest))) = .ok i' := by
  obtain ⟨i₀, hi₀⟩ := hfirst
  obtain ⟨m₀, hm₀, hi₀⟩ := parse_eq_ok.mp hi₀
  obtain ⟨m, hm, hi⟩ := parse_eq_ok.mp hf
  have hshown : j = 0 ∨ j = 1 ∧ .showing ∉ m.named := by
    refine hj.imp_right fun ⟨h₁, hs⟩ => ⟨h₁, ?_⟩
    obtain ⟨-, charts, -, rfl⟩ := finish_eq_ok.mp hi
    exact (coherent_start.foldlM hm).shown hs
  rw [List.foldlM_append, hm₀] at hm
  have hco := chartsOnly_foldlM hends rfl hm₀
  have hp := (coherent_start.foldlM hm₀).pending_of_finish hi₀
  obtain ⟨m₁, hm₁, he₁⟩ := (Extends.refl m₀).flags ha hco hp
  obtain ⟨m', hm', he⟩ := he₁.foldlM hm
  rw [Nat.zero_add, Nat.zero_add] at he
  obtain ⟨i', hi'⟩ := he.exists_finish hi hshown
  refine ⟨i', parse_eq_ok.mpr ⟨m', ?_, hi'⟩⟩
  rw [List.foldlM_append, hm₀]
  show (flags ++ rest).foldlM Matches.step m₀ = _
  rw [List.foldlM_append, hm₁]
  exact hm'

end

end Arguments

end TimingCharts
