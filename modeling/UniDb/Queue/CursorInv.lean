import UniDb.Queue.Consumer

/-!
# What orderly interleavings keep

`Orderly` says of a step what a run must avoid if the consumer is to get every committed event:

* a poll must not return an event above one whose transaction is still open;
* a poll's limit must exceed the entries above the offset that resolve to nothing, and a vector for
  so many row ids must be possible;
* a restart must find a visible event at or above what the consumer received: the counter starts
  again behind the last visible event;
* a vacuum must see the consumer's offset as it is, and a vacuum that ran before the consumer was
  registered must have committed before the consumer polls or acknowledges, and must not roll back.

`Inv` is what such steps keep (`Inv.step`): what is live and not yet returned is above the
consumer's cursor, and has its index entry unless a vacuum that is still open took it.
-/

namespace UniDb.Queue

open List

namespace QueueState

/-- The entries above the offset whose row is not visible. -/
def stale (s : QueueState) (offset : Int) : Nat :=
  (s.seqIndex.filter fun e => offset < e.1).countP fun e => (s.resolve e).isNone

/-- The steps after which nothing is skipped. -/
def Orderly (me : String) (s : QueueState) : QueueAction → Prop
  | .poll limit =>
    (∀ e ∈ s.eventsAbove (s.offset me) limit, ∀ row ∈ s.rows, s.status row.xmin = .running →
      e.2.seq < row.seq) ∧
    s.stale (s.offset me) < limit ∧ (s.Registered me ∨ s.NoneHeld) ∧ limit * rowIdSize ≤ isizeMax
  | .ack => s.Registered me ∨ s.NoneHeld
  | .abort x => s.Registered me ∨ ∀ row ∈ s.rows, row.xmax ≠ some x
  | .vacuum _ view _ => view.lookup me = s.consumers.lookup me
  | .restart => (s.Registered me ∨ s.NoneHeld) ∧ s.cursor me < s.recover.deriveNextEventSeq
  | .begin | .capture _ | .commit _ | .ackOther _ _ => True

instance (s : QueueState) : Decidable s.NoneHeld :=
  inferInstanceAs (Decidable (∀ row ∈ s.rows, ∀ y ∈ row.xmax, s.status y ≠ .running))

instance (me : String) (s : QueueState) (a : QueueAction) : Decidable (s.Orderly me a) := by
  cases a <;> dsimp only [Orderly] <;> infer_instance

/-! ## The invariant -/

structure Inv (me : String) (s : QueueState) : Prop where
  sorted : s.seqIndex.Pairwise fun e f => e.1 ≤ f.1
  keyed : ∀ q i, (q, i) ∈ s.seqIndex → ∃ row, s.rows[i]? = some row ∧ row.seq = q
  known : ∀ (i : Nat) (row : EventRow), s.rows[i]? = some row → row.xmin < s.txns.length
  undone : ∀ (i : Nat) (row : EventRow), s.rows[i]? = some row → ∀ y, row.xmax = some y →
    s.status y ≠ .aborted
  fresh : ∀ i row, s.Live i row → row.seq < s.nextEventSeq
  distinct : ∀ i j row row', s.Live i row → s.Live j row' → row.seq = row'.seq → i = j
  reach : s.cursor me < s.nextEventSeq
  passed : s.offset me ≤ s.cursor me
  ahead : ∀ i row, s.Live i row → i ∉ s.delivered → s.cursor me < row.seq
  indexed : ∀ i row, s.Live i row → i ∉ s.delivered → row.xmax = none → (row.seq, i) ∈ s.seqIndex
  held : s.Registered me → ∀ i row, s.Live i row → row.xmax ≠ none → i ∈ s.delivered

variable {s s' : QueueState} {me : String} {x y i : Nat} {row : EventRow}

lemma Inv.empty : Inv me empty where
  sorted := .nil
  keyed := fun _ _ h => nomatch h
  known := fun _ _ h => nomatch h
  undone := fun _ _ h => nomatch h
  fresh := fun _ _ h => nomatch h.there
  distinct := fun _ _ _ _ h => nomatch h.there
  reach := by simp [cursor, offset, QueueState.empty]
  passed := by simp [cursor, QueueState.empty]
  ahead := fun _ _ h => nomatch h.there
  indexed := fun _ _ h => nomatch h.there
  held := fun _ _ _ h => nomatch h.there

section

variable (h : Inv me s)
include h

/-- **Operations on transactions and rows.** The consumer's side stays as it was; a row that is live
afterwards was live before, and if it is still to be returned its entry is there. -/
theorem Inv.of_rows (hnext : s'.nextEventSeq = s.nextEventSeq)
    (hconsumers : s'.consumers = s.consumers) (hreceived : s'.received = s.received)
    (hdelivered : s'.delivered = s.delivered) (hindex : s'.seqIndex.Sublist s.seqIndex)
    (hkeyed : ∀ (i : Nat) (row : EventRow), s.rows[i]? = some row →
      ∃ row' : EventRow, s'.rows[i]? = some row' ∧ row'.seq = row.seq)
    (hknown : ∀ (i : Nat) (row : EventRow), s'.rows[i]? = some row → row.xmin < s'.txns.length)
    (hundone : ∀ (i : Nat) (row : EventRow), s'.rows[i]? = some row → ∀ y, row.xmax = some y →
      s'.status y ≠ .aborted)
    (hlive : ∀ i row', s'.Live i row' → ∃ row, s.Live i row ∧ row.seq = row'.seq ∧
      (i ∉ s.delivered → row'.xmax = none →
        row.xmax = none ∧ ((row.seq, i) ∈ s.seqIndex → (row.seq, i) ∈ s'.seqIndex)) ∧
      (s.Registered me → row'.xmax ≠ none → i ∉ s.delivered → row.xmax ≠ none)) : Inv me s' := by
  have hcursor : s'.cursor me = s.cursor me := by simp [cursor, offset, hconsumers, hreceived]
  refine ⟨h.sorted.sublist hindex, fun q i he => ?_, hknown, hundone, fun i row hrow => ?_,
    fun i j row row' hrow hrow' heq => ?_, ?_, ?_, fun i row hrow hi => ?_,
      fun i row hrow hi hx => ?_,
    fun hreg i row hrow hx => ?_⟩
  · obtain ⟨row, hrow, rfl⟩ := h.keyed q i (hindex.subset he)
    exact hkeyed i row hrow
  · obtain ⟨old, hold, hseq, -⟩ := hlive i row hrow
    rw [hnext, ← hseq]
    exact h.fresh i old hold
  · obtain ⟨old, hold, hseq, -⟩ := hlive i row hrow
    obtain ⟨old', hold', hseq', -⟩ := hlive j row' hrow'
    exact h.distinct i j old old' hold hold' (by rw [hseq, hseq', heq])
  · rw [hcursor, hnext]
    exact h.reach
  · rw [hcursor, offset, hconsumers]
    exact h.passed
  · obtain ⟨old, hold, hseq, -⟩ := hlive i row hrow
    rw [hcursor, ← hseq]
    exact h.ahead i old hold (hdelivered ▸ hi)
  · obtain ⟨old, hold, hseq, hopen, -⟩ := hlive i row hrow
    obtain ⟨hnone, hentry⟩ := hopen (hdelivered ▸ hi) hx
    rw [← hseq]
    exact hentry (h.indexed i old hold (hdelivered ▸ hi) hnone)
  · obtain ⟨old, hold, -, -, hheld⟩ := hlive i row hrow
    have hreg' : s.Registered me := by rwa [Registered, ← hconsumers]
    rw [hdelivered]
    by_contra hi
    exact hi (h.held hreg' i old hold (hheld hreg' hx hi))

lemma Inv.of_status {txns : List TxnStatus} (hlen : s.txns.length ≤ txns.length)
    (hstatus : ∀ y < s.txns.length, { s with txns }.status y = s.status y ∨
      s.status y = .running ∧ { s with txns }.status y = .committed) : Inv me { s with txns } := by
  refine h.of_rows rfl rfl rfl rfl (.refl _) (fun i row hrow => ⟨row, hrow, rfl⟩)
    (fun i row hrow => (h.known i row hrow).trans_le hlen)
        (fun i row hrow y hy => ?_) fun i row hrow =>
      ⟨row, ⟨hrow.there, ?_, fun y hy => ?_⟩, rfl, fun _ hx => ⟨hx, id⟩, fun _ hx _ => hx⟩
  · have hy' := h.undone i row hrow y hy
    rcases hstatus y (lt_length_of_status hy') with heq | ⟨-, heq⟩ <;> rw [heq]
    · exact hy'
    · simp
  · rcases hstatus _ (h.known i row hrow.there) with heq | ⟨heq, -⟩
    · exact heq ▸ hrow.written
    · simp [heq]
  · rcases hstatus y (lt_length_of_status (h.undone i row hrow.there y hy)) with heq | ⟨heq, -⟩
    · exact heq ▸ hrow.kept y hy
    · simp [heq]

lemma Inv.begin : Inv me s.begin :=
  h.of_status (by simp) fun _ hy => .inl (status_begin hy)

lemma Inv.commit (hx : s.status x = .running) : Inv me (s.commit x) := by
  refine h.of_status (by simp) fun y _ => ?_
  have hstatus : (s.commit x).status y = _ := status_commit hx
  split at hstatus
  · next heq => exact .inr ⟨heq ▸ hx, hstatus⟩
  · exact .inl hstatus

lemma Inv.status_of_held (hrow : s.Live i row) (hy : row.xmax = some y) :
    s.status y = .running := by
  have hundone := h.undone i row hrow.there y hy
  have hkept := hrow.kept y hy
  cases hs : s.status y with
  | running => rfl
  | committed => exact absurd hs hkept
  | aborted => exact absurd hs hundone

/-- Where the consumer is registered or nothing is held, what is to be returned is not marked. -/
lemma Inv.xmax_eq_none (hheld : s.Registered me ∨ s.NoneHeld) (hrow : s.Live i row)
    (hi : i ∉ s.delivered) : row.xmax = none := by
  by_contra hx
  rcases hheld with hreg | hnone
  · exact hi (h.held hreg i row hrow hx)
  · obtain ⟨y, hy⟩ := Option.ne_none_iff_exists'.1 hx
    exact hnone row (mem_of_getElem? hrow.there) y hy (h.status_of_held hrow hy)

/-- **Rollback**, of one transaction or of all that were running. A row whose mark is undone is one
that the consumer has got, as no mark is undone before the consumer is registered. -/
theorem Inv.rollback {undone : Nat → Bool} (hundone : ∀ y, undone y = true → s.status y = .running)
    (hok : s.Registered me ∨ ∀ row ∈ s.rows, ∀ y ∈ row.xmax, undone y = false)
    (hstatus : ∀ y, s'.status y = if undone y then .aborted else s.status y)
    (hrows : s'.rows = unmark undone s.rows) (htxns : s'.txns.length = s.txns.length)
    (hnext : s'.nextEventSeq = s.nextEventSeq) (hindex : s'.seqIndex = s.seqIndex)
    (hconsumers : s'.consumers = s.consumers) (hreceived : s'.received = s.received)
    (hdelivered : s'.delivered = s.delivered) : Inv me s' := by
  refine h.of_rows hnext hconsumers hreceived hdelivered (by rw [hindex]) (fun i row hrow => ?_)
    (fun i row hrow => ?_) (fun i row hrow y hy => ?_) fun i row hrow => ?_
  · rw [hrows]
    exact ⟨_, getElem?_unmark.2 ⟨row, hrow, rfl⟩, rfl⟩
  · rw [hrows] at hrow
    obtain ⟨old, hold, rfl⟩ := getElem?_unmark.1 hrow
    rw [htxns]
    exact h.known i old hold
  · rw [hrows] at hrow
    obtain ⟨old, hold, rfl⟩ := getElem?_unmark.1 hrow
    obtain ⟨hy, hkeeps⟩ := Option.filter_eq_some_iff.1 hy
    rw [hstatus, if_neg (by simpa using hkeeps)]
    exact h.undone i old hold y hy
  · have hthere := hrow.there
    rw [hrows] at hthere
    obtain ⟨old, hold, rfl⟩ := getElem?_unmark.1 hthere
    have hwritten := hrow.written
    rw [hstatus] at hwritten
    have hlive : s.Live i old := by
      refine ⟨hold, fun hs => hwritten ?_, fun y hy hs => ?_⟩
      · split
        · rfl
        · exact hs
      · have hkeeps : undone y = false := by
          by_contra hundo
          simp [hundone y (by simpa using hundo)] at hs
        refine hrow.kept y (Option.filter_eq_some_iff.2 ⟨hy, by simp [hkeeps]⟩) ?_
        rw [hstatus, hkeeps]
        exact hs
    refine ⟨old, hlive, rfl, fun hi hnone => ⟨?_, fun he => by rwa [hindex]⟩,
      fun _ hne _ hnone => ?_⟩
    · rcases hok with hreg | hfree
      · by_contra hmarked
        exact hi (h.held hreg i old hlive hmarked)
      · rw [Option.filter_eq_none_iff] at hnone
        by_contra hmarked
        obtain ⟨y, hy⟩ := Option.ne_none_iff_exists'.1 hmarked
        have hkeeps := hfree old (mem_of_getElem? hold) y hy
        simpa [hkeeps] using hnone y hy
    · simp [hnone] at hne

lemma Inv.abort (hx : s.status x = .running)
    (hok : s.Registered me ∨ ∀ row ∈ s.rows, row.xmax ≠ some x) : Inv me (s.abort x) := by
  refine h.rollback (fun y hy => ?_) (hok.imp_right fun hfree row hrow y hy => ?_)
    (fun y => ?_) rfl (by simp [QueueState.abort]) rfl rfl rfl rfl rfl
  · rwa [beq_iff_eq.1 hy]
  · exact beq_false_of_ne fun heq => hfree row hrow (heq ▸ hy)
  · simp [status_abort hx]

lemma Inv.recover (hok : s.Registered me ∨ s.NoneHeld) : Inv me s.recover :=
  h.rollback (fun _ hy => beq_iff_eq.1 hy)
    (hok.imp_right fun hfree row hrow y hy => beq_false_of_ne (hfree row hrow y hy))
    (fun y => by simp [status_recover]) rfl (by simp [QueueState.recover]) rfl rfl rfl rfl rfl

end

lemma seq_lt_deriveNextEventSeq (hrow : row ∈ s.rows) (hvisible : s.visible row = true) :
    row.seq < s.deriveNextEventSeq := by
  have hmem : row.seq ∈ (s.rows.filter s.visible).map fun row => row.seq :=
    mem_map_of_mem (mem_filter.2 ⟨hrow, hvisible⟩)
  have hle := (max?_eq_some_iff.1 max?_cons').2 row.seq (.tail 0 hmem)
  exact Int.lt_add_one_of_le hle

lemma Inv.reopen (h : Inv me s) (hok : s.Registered me ∨ s.NoneHeld)
    (hreach : s.cursor me < s.recover.deriveNextEventSeq) : Inv me s.reopen := by
  have hr := h.recover hok
  have hlive : ∀ i row, s.reopen.Live i row → s.recover.Live i row :=
    fun i row hrow => ⟨hrow.there, hrow.written, hrow.kept⟩
  refine ⟨hr.sorted, hr.keyed, hr.known, hr.undone, fun i row hrow => ?_,
    fun i j row row' hrow hrow' => hr.distinct i j row row' (hlive i row hrow) (hlive j row' hrow'),
    hreach, hr.passed, fun i row hrow => hr.ahead i row (hlive i row hrow),
    fun i row hrow => hr.indexed i row (hlive i row hrow),
    fun hreg i row hrow => hr.held hreg i row (hlive i row hrow)⟩
  -- nothing is running after recovery, so what is live is visible
  have hrow' := hlive i row hrow
  refine seq_lt_deriveNextEventSeq (mem_of_getElem? hrow'.there) (visible_iff.2 ⟨?_, hrow'.kept⟩)
  have hwritten := hrow'.written
  rw [status_recover] at hwritten ⊢
  cases hs : s.status row.xmin <;> simp [hs] at hwritten ⊢

variable {view : List (String × Int)} {consumer : String} {offset : Int} {limit : Nat}

lemma minOffset_le {least o : Int} (h : minOffset view = some least)
    (ho : view.lookup me = some o) : least ≤ o := by
  obtain ⟨l1, l2, rfl, -⟩ := lookup_eq_some_iff.1 ho
  exact (min?_eq_some_iff.1 h).2 o (by simp)

lemma deletable_iff : s.deletable x i = true ↔ ∃ row, s.rows[i]? = some row ∧
      (s.status row.xmin = .committed ∨ row.xmin = x) ∧ row.xmax = none := by
  simp [deletable, Option.any_eq_true_iff_get]
  grind

lemma Inv.vacuumEvents (h : Inv me s) {seen : List Nat} (hx : s.status x = .running)
    (hseen : seen.all (s.deletable x) = true) (hview : view.lookup me = s.consumers.lookup me) :
    Inv me (s.vacuumEvents x view seen) := by
  cases hleast : minOffset view with
  | none =>
    simp only [QueueState.vacuumEvents, hleast]
    exact h
  | some least =>
    have hindex : (s.vacuumEvents x view seen).seqIndex =
        s.seqIndex.filter fun e => ¬(e.2 ∈ seen ∧ e.1 ≤ least) := by
      simp only [QueueState.vacuumEvents, hleast]
    refine h.of_rows ?_ ?_ ?_ ?_ ?_ (fun i row hrow => ?_)
      (fun i row hrow => ?_) (fun i row hrow y hy => ?_) fun i row hrow => ?_
    iterate 4 simp only [QueueState.vacuumEvents, hleast]
    · rw [hindex]
      exact filter_sublist
    · refine ⟨_, (getElem?_vacuumEvents hleast).2 ⟨row, hrow, rfl⟩, ?_⟩
      split <;> rfl
    · obtain ⟨old, hold, rfl⟩ := (getElem?_vacuumEvents hleast).1 hrow
      have hknown := h.known i old hold
      simp only [QueueState.vacuumEvents, hleast]
      split <;> exact hknown
    · obtain ⟨old, hold, rfl⟩ := (getElem?_vacuumEvents hleast).1 hrow
      rw [status_vacuumEvents]
      split at hy
      · cases hy
        simp [hx]
      · exact h.undone i old hold y hy
    · obtain ⟨old, hold, rfl⟩ := (getElem?_vacuumEvents hleast).1 hrow.there
      have hwritten := hrow.written
      have hkept := hrow.kept
      simp only [status_vacuumEvents] at hwritten hkept
      by_cases htaken : i ∈ seen ∧ old.seq ≤ least
      · obtain ⟨old', hold', -, hfree⟩ := deletable_iff.1 (all_eq_true.1 hseen i htaken.1)
        cases hold.symm.trans hold'
        rw [if_pos htaken] at hwritten ⊢
        have hlive : s.Live i old := ⟨hold, hwritten, fun y hy => by simp [hfree] at hy⟩
        refine ⟨old, hlive, rfl, fun _ hnone => by simp at hnone, fun hreg _ hi => ?_⟩
        -- a registered consumer has passed what is taken
        obtain ⟨o, ho⟩ := Option.isSome_iff_exists.1 hreg
        have hleast_le : least ≤ o := minOffset_le hleast (hview.trans ho)
        have hoffset : s.offset me = o := by simp [offset, ho]
        have hahead := h.ahead i old hlive hi
        have hpassed := h.passed
        omega
      · rw [if_neg htaken] at hwritten hkept ⊢
        refine ⟨old, ⟨hold, hwritten, hkept⟩, rfl, fun _ hnone => ⟨hnone, fun he => ?_⟩,
          fun _ hne _ => hne⟩
        rw [hindex]
        exact mem_filter.2 ⟨he, decide_eq_true htaken⟩

lemma Live.of_capture (h : (s.sendEventCapture x).Live i row) :
    s.Live i row ∨ i = s.rows.length ∧ row = ⟨s.nextEventSeq, x, none⟩ :=
  (getElem?_sendEventCapture.1 h.there).imp_left fun hthere => ⟨hthere, h.written, h.kept⟩

lemma Inv.sendEventCapture (h : Inv me s) (hx : s.status x = .running) :
    Inv me (s.sendEventCapture x) := by
  have htotal : Std.Total fun e f : Int × Nat => e.1 ≤ f.1 := ⟨fun e f => le_total e.1 f.1⟩
  have htrans : IsTrans (Int × Nat) fun e f => e.1 ≤ f.1 := ⟨fun _ _ _ => le_trans⟩
  refine ⟨h.sorted.orderedInsert _ _, fun q i he => ?_, fun i row hrow => ?_,
    fun i row hrow y hy => ?_, fun i row hrow => ?_, fun i j row row' hrow hrow' heq => ?_, ?_,
    h.passed, fun i row hrow hi => ?_, fun i row hrow hi hnone => ?_, fun hreg i row hrow hne => ?_⟩
  · rcases (mem_orderedInsert _).1 he with heq | he
    · cases heq
      exact ⟨_, getElem?_sendEventCapture.2 (.inr ⟨rfl, rfl⟩), rfl⟩
    · obtain ⟨row, hrow, hseq⟩ := h.keyed q i he
      exact ⟨row, getElem?_sendEventCapture.2 (.inl hrow), hseq⟩
  · rcases getElem?_sendEventCapture.1 hrow with hrow | ⟨-, rfl⟩
    · exact h.known i row hrow
    · exact (lt_length_of_status (by simp [hx]) : x < s.txns.length)
  · rcases getElem?_sendEventCapture.1 hrow with hrow | ⟨-, rfl⟩
    · exact h.undone i row hrow y hy
    · simp at hy
  · simp only [QueueState.sendEventCapture]
    rcases hrow.of_capture with hrow | ⟨-, rfl⟩
    · have := h.fresh i row hrow
      omega
    · exact Int.lt_succ _
  · rcases hrow.of_capture with hrow | ⟨hi, rfl⟩ <;> rcases hrow'.of_capture with hrow' | ⟨hj, rfl⟩
    · exact h.distinct i j row row' hrow hrow' heq
    · exact absurd heq (h.fresh i row hrow).ne
    · exact absurd heq (h.fresh j row' hrow').ne'
    · rw [hi, hj]
  · have := h.reach
    simp only [QueueState.sendEventCapture, cursor, offset] at this ⊢
    omega
  · rcases hrow.of_capture with hrow | ⟨-, rfl⟩
    · exact h.ahead i row hrow hi
    · exact h.reach
  · refine (mem_orderedInsert _).2 ?_
    rcases hrow.of_capture with hrow | ⟨hi, rfl⟩
    · exact .inr (h.indexed i row hrow hi hnone)
    · exact .inl (by rw [hi])
  · rcases hrow.of_capture with hrow | ⟨-, rfl⟩
    · exact h.held hreg i row hrow hne
    · exact absurd rfl hne

/-- An acknowledgement that leaves the cursor where it was. Registering while an open vacuum has
rows would be too late for them. -/
lemma Inv.ackEvents (h : Inv me s) (hrows : s'.rows = s.rows) (htxns : s'.txns = s.txns)
    (hnext : s'.nextEventSeq = s.nextEventSeq) (hindex : s'.seqIndex = s.seqIndex)
    (hdelivered : s'.delivered = s.delivered) (hcursor : s'.cursor me = s.cursor me)
    (hpassed : s'.offset me ≤ s'.cursor me)
    (hreg : s'.Registered me → s.Registered me ∨ s.NoneHeld) : Inv me s' := by
  have hstatus : ∀ y, s'.status y = s.status y := fun y => by simp [status, htxns]
  have hlive : ∀ i row, s'.Live i row → s.Live i row := fun i row hrow =>
    ⟨hrows ▸ hrow.there, hstatus _ ▸ hrow.written, fun y hy => hstatus y ▸ hrow.kept y hy⟩
  refine ⟨hindex ▸ h.sorted, ?_, ?_, ?_, fun i row hrow => hnext ▸ h.fresh i row (hlive i row hrow),
    fun i j row row' hrow hrow' => h.distinct i j row row' (hlive i row hrow) (hlive j row' hrow'),
    by rw [hcursor, hnext]; exact h.reach, hpassed, fun i row hrow hi => ?_,
    fun i row hrow hi => ?_, fun hreg' i row hrow hne => ?_⟩
  · rw [hindex, hrows]
    exact h.keyed
  · rw [hrows, htxns]
    exact h.known
  · rw [hrows]
    exact fun i row hrow y hy => by rw [hstatus]; exact h.undone i row hrow y hy
  · rw [hcursor]
    exact h.ahead i row (hlive i row hrow) (hdelivered ▸ hi)
  · rw [hindex]
    exact h.indexed i row (hlive i row hrow) (hdelivered ▸ hi)
  · rw [hdelivered]
    by_contra hi
    exact hne (h.xmax_eq_none (hreg hreg') (hlive i row hrow) hi)

lemma offset_ack : (s.ack me).offset me = s.cursor me := by
  have hlookup : (s.ackEvents me (s.cursor me)).consumers.lookup me = some (s.cursor me) := by
    rw [lookup_ackEvents, if_pos rfl]
  exact congrArg (Option.getD · 0) hlookup

lemma cursor_ack : (s.ack me).cursor me = s.cursor me := offset_ack

lemma Inv.ack (h : Inv me s) (hok : s.Registered me ∨ s.NoneHeld) : Inv me (s.ack me) :=
  h.ackEvents rfl rfl rfl rfl rfl cursor_ack (offset_ack.trans cursor_ack.symm).le fun _ => hok

lemma lookup_ackOther (hne : consumer ≠ me) (upToSeq : Int) :
    (s.ackEvents consumer upToSeq).consumers.lookup me = s.consumers.lookup me := by
  rw [lookup_ackEvents, if_neg hne.symm]

lemma offset_ackOther (hne : consumer ≠ me) (upToSeq : Int) :
    (s.ackEvents consumer upToSeq).offset me = s.offset me :=
  congrArg (Option.getD · 0) (lookup_ackOther hne upToSeq)

lemma cursor_ackOther (hne : consumer ≠ me) (upToSeq : Int) :
    (s.ackEvents consumer upToSeq).cursor me = s.cursor me :=
  congrArg s.received.getD (offset_ackOther hne upToSeq)

lemma Inv.ackOther (h : Inv me s) (hne : consumer ≠ me) (upToSeq : Int) :
    Inv me (s.ackEvents consumer upToSeq) := by
  refine h.ackEvents rfl rfl rfl rfl rfl (cursor_ackOther hne upToSeq) ?_ fun hreg => .inl ?_
  · rw [offset_ackOther hne, cursor_ackOther hne]
    exact h.passed
  · rwa [Registered, ← lookup_ackOther hne upToSeq]

/-! ## Polls -/

lemma rel_of_notMem_take {α : Type} {r : α → α → Prop} {l : List α} (h : l.Pairwise r) {n : Nat}
    {a b : α} (ha : a ∈ l.take n) (hb : b ∈ l) (hn : b ∉ l.take n) : r a b := by
  rw [← take_append_drop n l] at h hb
  exact (pairwise_append.1 h).2.2 a ha b ((mem_append.1 hb).resolve_left hn)

lemma mem_entriesAbove {e : Int × Nat} (h : e ∈ s.entriesAbove offset limit) :
    e ∈ s.seqIndex ∧ offset < e.1 := by
  simpa using mem_of_mem_take h

lemma Inv.of_mem_eventsAbove (h : Inv me s) (hmem : (i, row) ∈ s.eventsAbove offset limit) :
    s.Live i row ∧ offset < row.seq ∧ (row.seq, i) ∈ s.entriesAbove offset limit := by
  obtain ⟨q, he, hrow, hvisible⟩ := mem_eventsAbove.1 hmem
  obtain ⟨hcommitted, hkept⟩ := visible_iff.1 hvisible
  obtain ⟨row', hrow', rfl⟩ := h.keyed q i (mem_entriesAbove he).1
  cases hrow.symm.trans hrow'
  exact ⟨⟨hrow, by simp [hcommitted], hkept⟩, (mem_entriesAbove he).2, he⟩

/-- A visible event above the offset that a poll does not return has a higher number than all it
returns. -/
lemma Inv.lt_of_not_returned (h : Inv me s) {j : Nat} {got : EventRow} (hrow : s.Live i row)
    (hvisible : s.visible row = true) (hentry : (row.seq, i) ∈ s.seqIndex)
    (habove : offset < row.seq) (hi : ∀ row, (i, row) ∉ s.eventsAbove offset limit)
    (hgot : (j, got) ∈ s.eventsAbove offset limit) : got.seq < row.seq := by
  obtain ⟨hlive, -, he⟩ := h.of_mem_eventsAbove hgot
  have hmissed : (row.seq, i) ∉ s.entriesAbove offset limit := fun he =>
    hi row (mem_eventsAbove.2 ⟨row.seq, he, hrow.there, hvisible⟩)
  have hle : got.seq ≤ row.seq :=
    rel_of_notMem_take (h.sorted.filter _) he (mem_filter.2 ⟨hentry, by simpa using habove⟩)
      hmissed
  refine lt_of_le_of_ne hle fun heq => hi got ?_
  rwa [h.distinct i j row got hrow hlive heq.symm]

lemma eventsAbove_ne_nil (hentry : (row.seq, i) ∈ s.seqIndex) (habove : offset < row.seq)
    (hrow : s.rows[i]? = some row) (hvisible : s.visible row = true)
    (hstale : s.stale offset < limit) : s.eventsAbove offset limit ≠ [] := by
  intro hnil
  have hnone : ∀ e ∈ s.entriesAbove offset limit, (s.resolve e).isNone = true := by
    intro e he
    have := filterMap_eq_nil_iff.1 hnil e he
    simp [this]
  have hcount := countP_eq_length.2 hnone
  have hle : (s.entriesAbove offset limit).length ≤ s.stale offset := by
    rw [← hcount]
    exact (take_sublist _ _).countP_le
  -- fewer candidates than the limit, so the event is among them
  have hall : s.entriesAbove offset limit = s.seqIndex.filter fun e => offset < e.1 := by
    refine take_of_length_le ?_
    rw [entriesAbove, length_take] at hle
    omega
  have hmem : (row.seq, i) ∈ s.entriesAbove offset limit := by
    rw [hall]
    exact mem_filter.2 ⟨hentry, by simpa using habove⟩
  have hresolve := hnone _ hmem
  simp [resolve, hrow, hvisible] at hresolve

lemma polled_of_nil (hreceived : s.received = none)
    (hnil : s.eventsAbove (s.offset me) limit = []) :
    s.polled me limit = s := by
  simp [polled, receive, hnil, ← hreceived]

lemma cursor_polled (hne : s.eventsAbove (s.offset me) limit ≠ []) :
    (∃ e ∈ s.eventsAbove (s.offset me) limit, e.2.seq = (s.polled me limit).cursor me) ∧
      ∀ e ∈ s.eventsAbove (s.offset me) limit, e.2.seq ≤ (s.polled me limit).cursor me := by
  obtain ⟨m, hm⟩ : ∃ m, ((s.eventsAbove (s.offset me) limit).map fun e => e.2.seq).max? =
      some m := by
    rw [← Option.isSome_iff_exists]
    simpa using hne
  have hcursor : (s.polled me limit).cursor me = m := by simp [cursor, polled, receive, hm]
  obtain ⟨hmem, hmax⟩ := max?_eq_some_iff.1 hm
  rw [hcursor]
  exact ⟨mem_map.1 hmem, fun e he => hmax _ (mem_map_of_mem he)⟩

lemma Inv.cursor_lt_polled (h : Inv me s) (hreceived : s.received = none)
    (hne : s.eventsAbove (s.offset me) limit ≠ []) : s.cursor me <
        (s.polled me limit).cursor me := by
  obtain ⟨⟨⟨j, got⟩, hgot, hmax⟩, -⟩ := cursor_polled hne
  obtain ⟨-, habove, -⟩ := h.of_mem_eventsAbove hgot
  rw [← hmax]
  simpa [cursor, hreceived] using habove

lemma Inv.polled (h : Inv me s) (hreceived : s.received = none)
    (horder : ∀ e ∈ s.eventsAbove (s.offset me) limit, ∀ row ∈ s.rows,
      s.status row.xmin = .running → e.2.seq < row.seq) (hok : s.Registered me ∨ s.NoneHeld) :
    Inv me (s.polled me limit) := by
  by_cases hnil : s.eventsAbove (s.offset me) limit = []
  · rwa [polled_of_nil hreceived hnil]
  have hcursor : s.cursor me = s.offset me := by simp [cursor, hreceived]
  obtain ⟨⟨⟨j, got⟩, hgot, hmax⟩, -⟩ := cursor_polled hnil
  obtain ⟨hlive_got, habove_got, -⟩ := h.of_mem_eventsAbove hgot
  have hlive : ∀ i row, (s.polled me limit).Live i row → s.Live i row :=
    fun i row hrow => ⟨hrow.there, hrow.written, hrow.kept⟩
  have hmissed : ∀ i, i ∉ (s.polled me limit).delivered →
      i ∉ s.delivered ∧ ∀ row, (i, row) ∉ s.eventsAbove (s.offset me) limit := by
    intro i hi
    simp only [QueueState.polled, receive, mem_append, mem_map, not_or, not_exists, not_and] at hi
    exact ⟨hi.1, fun row hrow => hi.2 (i, row) hrow rfl⟩
  refine ⟨h.sorted, h.keyed, h.known, h.undone, fun i row hrow => h.fresh i row (hlive i row hrow),
    fun i j row row' hrow hrow' => h.distinct i j row row' (hlive i row hrow) (hlive j row' hrow'),
    ?_, ?_, fun i row hrow hi => ?_,
    fun i row hrow hi => h.indexed i row (hlive i row hrow) (hmissed i hi).1,
    fun hreg i row hrow hne => mem_append_left _ (h.held hreg i row (hlive i row hrow) hne)⟩
  · rw [← hmax]
    exact h.fresh j got hlive_got
  · rw [← hmax]
    exact habove_got.le
  · have hrow := hlive i row hrow
    obtain ⟨hi, hnot⟩ := hmissed i hi
    have hnone := h.xmax_eq_none hok hrow hi
    rw [← hmax]
    -- a row of an open transaction is above by the order, a visible one as the index is sorted
    cases hs : s.status row.xmin with
    | running => exact horder (j, got) hgot row (mem_of_getElem? hrow.there) hs
    | aborted => exact absurd hs hrow.written
    | committed =>
      exact h.lt_of_not_returned hrow (visible_iff.2 ⟨hs, hrow.kept⟩)
        (h.indexed i row hrow hi hnone) (hcursor ▸ h.ahead i row hrow hi) hnot hgot

lemma Inv.step (h : Inv me s) {a : QueueAction} (hok : s.Orderly me a)
    (hstep : s.step me a = some s') : Inv me s' := by
  cases a with
  | begin =>
    cases hstep
    exact h.begin
  | capture x =>
    obtain ⟨hx, ⟨⟩⟩ := Option.ite_none_right_eq_some.1 hstep
    exact h.sendEventCapture hx
  | commit x =>
    obtain ⟨hx, ⟨⟩⟩ := Option.ite_none_right_eq_some.1 hstep
    exact h.commit hx
  | abort x =>
    obtain ⟨hx, ⟨⟩⟩ := Option.ite_none_right_eq_some.1 hstep
    exact h.abort hx hok
  | poll limit =>
    obtain ⟨hreceived, ⟨⟩⟩ := Option.ite_none_right_eq_some.1 hstep
    rw [poll_of_fits hok.2.2.2]
    exact h.polled hreceived hok.1 hok.2.2.1
  | ack =>
    cases hstep
    exact h.ack hok
  | ackOther consumer upToSeq =>
    obtain ⟨hne, ⟨⟩⟩ := Option.ite_none_right_eq_some.1 hstep
    exact h.ackOther hne upToSeq
  | vacuum x view seen =>
    obtain ⟨⟨hx, -, hseen⟩, hs⟩ := Option.ite_none_right_eq_some.1 hstep
    cases hs
    exact h.vacuumEvents hx hseen hok
  | restart =>
    cases hstep
    exact h.reopen hok.1 hok.2

end QueueState

end UniDb.Queue
