import UniDb.Index.Log

/-!
# When index pages recover atomically

A logged position counts from the leaf as it was in memory, and nothing undoes a write to an index
page. So the redo pass gives back the committed state only if the writes of a page are committed in
the order they were made, and if no uncommitted write reached the disk or hides behind a checkpoint
(`Allowed`).

* `committed_insert_lost`: two inserts into one leaf, the second one committed first. Recovery skips
  the committed insert, since its position lies beyond the end of the leaf without the first one.
-/

namespace UniDb

open List Nat Function

namespace IndexLog

/-- **Steps that keep recovery atomic.** A mini-transaction writes a page only if no other
uncommitted one has written it, and not while a checkpoint is behind its flush; a page goes to the
disk only when the commits of all writes to it are durable. -/
def Allowed (s : Store) : Action → Prop
  | .writeRaw txn page _ | .insertEntry txn page _ =>
    (∀ r ∈ s.log, writes page r = true → r.miniTxn = txn ∨ committedIn s.log r.miniTxn = true) ∧
      (s.phase = .idle ∨ s.phase = .synced)
  | .flush page =>
    ∀ r ∈ s.log, writes page r = true → committedIn (s.log.take s.durable) r.miniTxn = true
  | .checkpoint =>
    s.phase = .synced → ∀ page ∈ s.writtenPages, ∀ r ∈ s.log, writes page r = true →
      committedIn (s.log.take s.durable) r.miniTxn = true
  | _ => True

instance Allowed.decidable (s : Store) (a : Action) : Decidable (Allowed s a) := by
  cases a <;> dsimp only [Allowed] <;> infer_instance

variable {log : List WalRecord} {r : WalRecord} {page i n txn : Nat}

/-! ## Commits -/

lemma committedIn_iff :
    committedIn log txn = true ↔ ∃ r ∈ log, r.miniTxn = txn ∧ r.body = .commit := by
  simp [committedIn]

lemma committedIn_mono {log' : List WalRecord} (hsub : ∀ r ∈ log, r ∈ log')
    (h : committedIn log txn = true) : committedIn log' txn = true := by
  obtain ⟨r, hr, hc⟩ := committedIn_iff.1 h
  exact committedIn_iff.2 ⟨r, hsub r hr, hc⟩

variable {m : Nat} {s s' : Store} {pages : Nat → Option Page} {past : Prop}

lemma committedIn_take {n : Nat} (hmn : m ≤ n) (h : committedIn (log.take m) txn = true) :
    committedIn (log.take n) txn = true :=
  committedIn_mono (fun _ hr => (take_subset_take_left log hmn) hr) h

/-! ## Contents along the log -/

lemma contentAt_succ (h : log[i]? = some r) :
    contentAt log page (i + 1) = applyRecord page (contentAt log page i) r := by
  simp [contentAt, take_add_one, h]

lemma contentAt_append (rs : List WalRecord) (h : i ≤ log.length) :
    contentAt (log ++ rs) page i = contentAt log page i := by
  rw [contentAt, take_append_of_le_length h, contentAt]

lemma applyRecord_of_not_writes {c : Option Page} (h : writes page r = false) :
    applyRecord page c r = c := by
  unfold writes at h
  unfold applyRecord
  split <;> simp_all

lemma contentAt_succ_of_not_writes (h : ∀ r, log[i]? = some r → writes page r = false) :
    contentAt log page (i + 1) = contentAt log page i := by
  cases hr : log[i]? with
  | none =>
    have hlen := getElem?_eq_none_iff.1 hr
    rw [contentAt, contentAt, take_of_length_le (le_succ_of_le hlen), take_of_length_le hlen]
  | some r => rw [contentAt_succ hr, applyRecord_of_not_writes (h r hr)]

lemma contentAt_eq_of_no_writes {a b : Nat} (hab : a ≤ b)
    (h : ∀ i r, a ≤ i → i < b → log[i]? = some r → writes page r = false) :
    contentAt log page b = contentAt log page a := by
  induction b, hab using le_induction with
  | base => rfl
  | succ b hab ih =>
    rw [contentAt_succ_of_not_writes fun r => h b r hab (lt_succ_self b)]
    exact ih fun i r hai hib => h i r hai (by omega)

def touches (page : Nat) (r : WalRecord) : Prop :=
  writes page r = true ∨ ∃ image, r.body = .fpi page image

/-! ## Well-formed logs -/

structure LogOk (log : List WalRecord) : Prop where
  lsn : ∀ i r, log[i]? = some r → r.lsn = i + 1
  inserts : ∀ i r page pos e, log[i]? = some r → r.body = .indexInsert page pos e →
    ∃ l entries next, contentAt log page i = some ⟨l, .leaf entries next⟩ ∧ pos ≤ entries.length
  fpis : ∀ i r page image, log[i]? = some r → r.body = .fpi page image →
    contentAt log page i = some image
  isolated : ∀ i j r r' page, i < j → log[i]? = some r → log[j]? = some r' →
    writes page r = true → touches page r' →
    r.miniTxn = r'.miniTxn ∨ committedIn (log.take j) r.miniTxn = true
  ended : ∀ i r page, log[i]? = some r → touches page r →
    committedIn (log.take i) r.miniTxn = false

lemma LogOk.nil : LogOk [] := by
  constructor <;> simp

structure Appendable (log : List WalRecord) (r : WalRecord) : Prop where
  lsn : r.lsn = log.length + 1
  insert : ∀ page pos e, r.body = .indexInsert page pos e →
    ∃ l entries next, contentAt log page log.length = some ⟨l, .leaf entries next⟩ ∧
      pos ≤ entries.length
  fpi : ∀ page image, r.body = .fpi page image → contentAt log page log.length = some image
  isolated : ∀ page, touches page r → ∀ r' ∈ log, writes page r' = true →
    r'.miniTxn = r.miniTxn ∨ committedIn log r'.miniTxn = true
  ended : ∀ page, touches page r → committedIn log r.miniTxn = false

lemma getElem?_concat {α : Type} {l : List α} {a b : α} {i : Nat}
    (h : (l ++ [a])[i]? = some b) : l[i]? = some b ∨ i = l.length ∧ b = a := by
  rcases lt_trichotomy i l.length with hi | rfl | hi
  · rw [getElem?_append_left hi] at h
    exact .inl h
  · rw [getElem?_append_right (Nat.le_refl _), Nat.sub_self] at h
    exact .inr ⟨rfl, (Option.some.inj h).symm⟩
  · rw [getElem?_eq_none (by rw [length_append, length_singleton]; omega)] at h
    cases h

lemma lt_length_of_getElem? {α : Type} {l : List α} {a : α} {i : Nat} (h : l[i]? = some a) :
    i < l.length := by
  obtain ⟨hi, -⟩ := List.getElem?_eq_some_iff.1 h
  exact hi

lemma LogOk.append (h : LogOk log) (hr : Appendable log r) : LogOk (log ++ [r]) := by
  have hcontent : ∀ page i, i ≤ log.length →
      contentAt (log ++ [r]) page i = contentAt log page i := fun _ _ hi => contentAt_append [r] hi
  have htake : ∀ i, i ≤ log.length → (log ++ [r]).take i = log.take i := fun i hi =>
    take_append_of_le_length hi
  constructor
  · intro i r' hi
    rcases getElem?_concat hi with hi | ⟨rfl, rfl⟩
    · exact h.lsn i r' hi
    · exact hr.lsn
  · intro i r' page pos e hi hbody
    rcases getElem?_concat hi with hi | ⟨rfl, rfl⟩
    · rw [hcontent page i (le_of_lt (lt_length_of_getElem? hi))]
      exact h.inserts i r' page pos e hi hbody
    · rw [hcontent page _ (le_refl _)]
      exact hr.insert page pos e hbody
  · intro i r' page image hi hbody
    rcases getElem?_concat hi with hi | ⟨rfl, rfl⟩
    · rw [hcontent page i (le_of_lt (lt_length_of_getElem? hi))]
      exact h.fpis i r' page image hi hbody
    · rw [hcontent page _ (le_refl _)]
      exact hr.fpi page image hbody
  · intro i j r1 r2 page hij hi hj hw ht
    rcases getElem?_concat hj with hj | ⟨rfl, rfl⟩
    · have hjlen := lt_length_of_getElem? hj
      rw [getElem?_append_left (by omega)] at hi
      rw [htake j (by omega)]
      exact h.isolated i j r1 r2 page hij hi hj hw ht
    · rw [getElem?_append_left hij] at hi
      rw [htake _ (le_refl _), take_length]
      exact hr.isolated page ht r1 (mem_of_getElem? hi) hw
  · intro i r' page hi ht
    rcases getElem?_concat hi with hi | ⟨rfl, rfl⟩
    · rw [htake i (le_of_lt (lt_length_of_getElem? hi))]
      exact h.ended i r' page hi ht
    · rw [htake _ (le_refl _), take_length]
      exact hr.ended page ht

lemma LogOk.content_of_write (h : LogOk log) (hr : log[i]? = some r)
    (hw : writes page r = true) : ∃ node, contentAt log page (i + 1) = some ⟨i + 1, node⟩ := by
  have hlsn := h.lsn i r hr
  rw [contentAt_succ hr]
  unfold writes at hw
  unfold applyRecord
  split
  · next q image hbody =>
    rw [hbody] at hw
    rw [if_pos (by simpa using hw), hlsn]
    exact ⟨image, rfl⟩
  · next q pos e hbody =>
    rw [hbody] at hw
    obtain rfl : q = page := by simpa using hw
    obtain ⟨l, entries, next, hc, -⟩ := h.inserts i r q pos e hr hbody
    rw [if_pos rfl, hc, hlsn]
    exact ⟨_, rfl⟩
  · next hne1 hne2 =>
    split at hw
    · next q image hbody => exact absurd hbody (hne1 q image)
    · next q pos e hbody => exact absurd hbody (hne2 q pos e)
    · cases hw

lemma LogOk.lsn_le (h : LogOk log) {pg : Page} (hpg : contentAt log page i = some pg) :
    pg.lsn ≤ i := by
  induction i generalizing pg with
  | zero => simp [contentAt] at hpg
  | succ i ih =>
    by_cases hw : ∃ r, log[i]? = some r ∧ writes page r = true
    · obtain ⟨r, hr, hw⟩ := hw
      obtain ⟨node, hnode⟩ := h.content_of_write hr hw
      rw [hnode] at hpg
      cases hpg
      exact le_refl _
    · rw [contentAt_succ_of_not_writes fun r hr => by simpa using fun hr' => hw ⟨r, hr, hr'⟩] at hpg
      exact le_succ_of_le (ih hpg)

lemma LogOk.le_lsn (h : LogOk log) (hr : log[i]? = some r) (hw : writes page r = true)
    (him : i < m) : ∃ pg, contentAt log page m = some pg ∧ i + 1 ≤ pg.lsn := by
  induction m, him using le_induction with
  | base =>
    obtain ⟨node, hnode⟩ := h.content_of_write hr hw
    exact ⟨_, hnode, le_refl _⟩
  | succ m him ih =>
    obtain ⟨pg, hpg, hle⟩ := ih
    by_cases hw' : ∃ r', log[m]? = some r' ∧ writes page r' = true
    · obtain ⟨r', hr', hw'⟩ := hw'
      obtain ⟨node, hnode⟩ := h.content_of_write hr' hw'
      exact ⟨_, hnode, by simp only; omega⟩
    · refine ⟨pg, ?_, hle⟩
      rw [contentAt_succ_of_not_writes fun r hr => by simpa using fun hr' => hw' ⟨r, hr, hr'⟩, hpg]

/-! ## The redo pass -/

def selected (s : Store) (n : Nat) (r : WalRecord) : Bool :=
  committedIn (recover.relevant s n) r.miniTxn && decide (s.checkpointLsn ≤ r.lsn)

def redoneTo (s : Store) (n m : Nat) : Nat → Option Page :=
  ((s.log.take m).filter (selected s n)).foldl redoRecord s.disk

lemma recover_eq (s : Store) (n : Nat) : recover s n = redoneTo s n n := by
  rw [recover, recover.relevant, filter_filter]
  rfl

lemma redoneTo_succ (h : s.log[m]? = some r) : redoneTo s n (m + 1) =
      if selected s n r then redoRecord (redoneTo s n m) r else redoneTo s n m := by
  rw [redoneTo, take_add_one, h]
  cases hsel : selected s n r <;> simp [hsel, redoneTo]

lemma selected_iff (h : LogOk s.log) (hi : s.log[i]? = some r) (ht : touches page r) :
    selected s n r = true ↔
      s.checkpointLsn ≤ i + 1 ∧ committedIn (s.log.take n) r.miniTxn = true := by
  have hlsn := h.lsn i r hi
  rw [selected, Bool.and_eq_true, decide_eq_true_iff, hlsn]
  constructor
  · rintro ⟨hc, hle⟩
    exact ⟨hle, committedIn_mono (fun r' hr' => (mem_filter.1 hr').1) hc⟩
  · rintro ⟨hle, hc⟩
    refine ⟨?_, hle⟩
    obtain ⟨c, hcmem, hctxn, hcbody⟩ := committedIn_iff.1 hc
    refine committedIn_iff.2 ⟨c, mem_filter.2 ⟨hcmem, ?_⟩, hctxn, hcbody⟩
    -- The commit comes after the record.
    obtain ⟨j, hj⟩ := mem_iff_getElem?.1 hcmem
    rw [getElem?_take] at hj
    split at hj
    · have hij : i ≤ j := by
        by_contra hlt
        have hcin : committedIn (s.log.take i) r.miniTxn = true :=
          committedIn_iff.2 ⟨c, mem_iff_getElem?.2 ⟨j, by
            rw [getElem?_take, if_pos (by omega)]; exact hj⟩, hctxn, hcbody⟩
        rw [h.ended i r page hi ht] at hcin
        cases hcin
      have hjlsn := h.lsn j c hj
      simp only [decide_eq_true_eq]
      omega
    · cases hj

/-- What is on the disk: the page at a point of the log, with only durably committed writes before
it and only writes behind the checkpoint after it. -/
def DiskOk (s : Store) (past : Prop) (page : Nat) : Prop :=
  ∃ point ≤ s.durable, s.disk page = contentAt s.log page point ∧
    (∀ i r, i < point → s.log[i]? = some r → writes page r = true →
      committedIn (s.log.take s.durable) r.miniTxn = true) ∧
    ∀ i r, point ≤ i → s.log[i]? = some r → writes page r = true →
      s.checkpointLsn ≤ i + 1 ∧ ¬ past

lemma LogOk.committed_before (h : LogOk log) {j : Nat} {r' : WalRecord} (hij : i < j)
    (hi : log[i]? = some r) (hj : log[j]? = some r') (hw : writes page r = true)
    (ht : touches page r') (hjn : j ≤ n) (hc : committedIn (log.take n) r'.miniTxn = true) :
    committedIn (log.take n) r.miniTxn = true := by
  rcases h.isolated i j r r' page hij hi hj hw ht with heq | hbefore
  · rw [heq]
    exact hc
  · exact committedIn_take hjn hbefore

lemma redoRecord_of_not_touches (h : ¬ touches page r) :
    redoRecord pages r page = pages page := by
  cases hbody : r.body with
  | fpi q image =>
    simp only [redoRecord, hbody]
    refine update_of_ne (fun heq => h (.inr ⟨image, ?_⟩)) _ _
    rw [hbody, heq]
  | index q image | indexInsert q pos e =>
    simp only [redoRecord, hbody]
    refine update_of_ne (fun heq => h (.inl ?_)) _ _
    simp [writes, hbody, heq]
  | _ => simp only [redoRecord, hbody]

/-- **What redoing a committed record does** to a page that is at an earlier or a later point of the
log: it is then behind the record, or where it was if it was further. -/
theorem redoRecord_point {point : Nat} (h : LogOk s.log) (hm : s.log[m]? = some r)
    (ht : touches page r) (hpages : pages page = contentAt s.log page point)
    (hbetween : ∀ i r', point ≤ i → i < m → s.log[i]? = some r' → writes page r' = false) :
    (∃ image, r.body = .fpi page image ∧ redoRecord pages r page = contentAt s.log page m) ∨
      writes page r = true ∧ (redoRecord pages r page = contentAt s.log page (m + 1) ∨
        m < point ∧ redoRecord pages r page = contentAt s.log page point) := by
  have hlsn := h.lsn m r hm
  rcases ht with hw | ⟨image, hbody⟩
  · right
    refine ⟨hw, ?_⟩
    have hsucc : contentAt s.log page (m + 1) = applyRecord page (contentAt s.log page m) r :=
      contentAt_succ hm
    unfold writes at hw
    split at hw
    · next q image hbody =>
      obtain rfl : q = page := by simpa using hw
      rw [hsucc]
      simp [redoRecord, applyRecord, hbody]
    · next q pos e hbody =>
      obtain rfl : q = page := by simpa using hw
      obtain ⟨l, entries, next, hc, hpos⟩ := h.inserts m r q pos e hm hbody
      rcases lt_or_ge m point with hlt | hge
      · -- The page is further already, and the LSN says so.
        right
        refine ⟨hlt, ?_⟩
        have hwrites : writes q r = true := by simp [writes, hbody]
        obtain ⟨pg, hpg, hle⟩ := h.le_lsn hm hwrites hlt
        rw [hpg] at hpages ⊢
        simp only [redoRecord, hbody, update_self, hpages]
        obtain ⟨pageLsn, node⟩ := pg
        cases node with
        | leaf entries' next' => simp [redoIndexInsert, hlsn, hle]
        | _ => rfl
      · have hsame : contentAt s.log q m = contentAt s.log q point :=
          contentAt_eq_of_no_writes hge hbetween
        have hle := h.lsn_le hc
        have hgate : ¬ r.lsn ≤ l := by simp only at hle; omega
        rw [← hsame, hc] at hpages
        rw [hsucc, hc]
        simp [redoRecord, applyRecord, hbody, hpages, redoIndexInsert, hgate, hpos]
    · cases hw
  · left
    refine ⟨image, hbody, ?_⟩
    simp [redoRecord, hbody, h.fpis m r page image hm hbody]

/-- The page is at a point of the log before which all writes to it are committed, and after which
none of the first `m` records is. -/
def RedoneAt (s : Store) (n m page : Nat) (c : Option Page) : Prop :=
  ∃ point ≤ n, c = contentAt s.log page point ∧
    (∀ i r, i < point → s.log[i]? = some r → writes page r = true →
      committedIn (s.log.take n) r.miniTxn = true) ∧
    (∀ i r, point ≤ i → i < m → s.log[i]? = some r → writes page r = true →
      committedIn (s.log.take n) r.miniTxn = false) ∧
    ∀ i r, point ≤ i → s.log[i]? = some r → writes page r = true → s.checkpointLsn ≤ i + 1

theorem redoneTo_point (h : LogOk s.log) (hdisk : DiskOk s past page) (hdn : s.durable ≤ n)
    (hn : n ≤ s.log.length) (hm : m ≤ n) : RedoneAt s n m page (redoneTo s n m page) := by
  induction m with
  | zero =>
    obtain ⟨point, hle, hcontent, hbefore, hafter⟩ := hdisk
    refine ⟨point, hle.trans hdn, by simpa [redoneTo] using hcontent, ?_, by omega, ?_⟩
    · exact fun i r hi hr hw => committedIn_take hdn (hbefore i r hi hr hw)
    · exact fun i r hi hr hw => (hafter i r hi hr hw).1
  | succ m ih =>
    obtain ⟨point, hpn, hcontent, hbefore, hnone, hckpt⟩ := ih (by omega)
    obtain ⟨r, hr⟩ : ∃ r, s.log[m]? = some r := ⟨s.log[m], getElem?_eq_getElem (by omega)⟩
    rw [redoneTo_succ hr]
    -- The record changes nothing here, and is no committed write that is not yet in the page.
    have hskip : ∀ pages : Nat → Option Page, pages page = redoneTo s n m page →
        (point ≤ m → writes page r = true → committedIn (s.log.take n) r.miniTxn = false) →
        RedoneAt s n (m + 1) page (pages page) := by
      intro pages hpages hlast
      refine ⟨point, hpn, hpages.trans hcontent, hbefore, fun i r' hi him hr' hw => ?_, hckpt⟩
      rcases lt_or_ge i m with hlt | hge
      · exact hnone i r' hi hlt hr' hw
      · obtain rfl : i = m := by omega
        obtain rfl : r = r' := by rw [hr] at hr'; exact Option.some.inj hr'
        exact hlast hi hw
    by_cases ht : touches page r
    · have hsel := selected_iff (n := n) h hr ht
      cases hs : selected s n r with
      | false =>
        refine hskip _ rfl fun hpm hw => ?_
        by_contra hc
        have hsel' := hsel.2 ⟨hckpt m r hpm hr hw, by simpa using hc⟩
        rw [hs] at hsel'
        cases hsel'
      | true =>
        obtain ⟨hle, hc⟩ := hsel.1 hs
        have hall : ∀ i r', i < m → s.log[i]? = some r' → writes page r' = true →
            committedIn (s.log.take n) r'.miniTxn = true := fun i r' him hr' hw' =>
          h.committed_before him hr' hr hw' ht (by omega) hc
        have hbetween : ∀ i r', point ≤ i → i < m → s.log[i]? = some r' →
            writes page r' = false := by
          intro i r' hi him hr'
          cases hw' : writes page r' with
          | false => rfl
          | true =>
            have hno := hnone i r' hi him hr' hw'
            rw [hall i r' him hr' hw'] at hno
            cases hno
        rcases redoRecord_point h hr ht hcontent hbetween with
          ⟨image, hbody, heq⟩ | ⟨hw, heq | ⟨hlt, heq⟩⟩
        · refine ⟨m, by omega, heq, hall, fun i r' hi him hr' hw' => ?_,
            fun i r' hi hr' hw' => by omega⟩
          obtain rfl : i = m := by omega
          rw [hr] at hr'
          cases hr'
          simp [writes, hbody] at hw'
        · refine ⟨m + 1, by omega, heq, fun i r' hi hr' hw' => ?_, fun i r' hi him => by omega,
            fun i r' hi hr' hw' => by omega⟩
          rcases lt_or_ge i m with hlt | hge
          · exact hall i r' hlt hr' hw'
          · obtain rfl : i = m := by omega
            rw [hr] at hr'
            cases hr'
            exact hc
        · exact hskip _ (heq.trans hcontent.symm) fun hpm => by omega
    · have hnot : writes page r ≠ true := fun hw => ht (.inl hw)
      split
      · exact hskip _ (redoRecord_of_not_touches ht) fun _ hw => absurd hw hnot
      · exact hskip _ rfl fun _ hw => absurd hw hnot

/-- **A page recovers atomically** from a well-formed log and disk. -/
theorem recoversPage_of_ok (h : LogOk s.log) (hdisk : DiskOk s past page) (hdn : s.durable ≤ n)
    (hn : n ≤ s.log.length) : RecoversPage s n page := by
  obtain ⟨point, hpn, hcontent, hbefore, hnone, -⟩ := redoneTo_point h hdisk hdn hn (le_refl n)
  refine ⟨point, hpn, by rw [recover_eq]; exact hcontent, fun i r hi hr hw => ?_⟩
  constructor
  · intro hc
    by_contra hge
    rw [hnone i r (by omega) hi hr hw] at hc
    cases hc
  · exact fun hlt => hbefore i r hlt hr hw

/-! ## The store along a run -/

/-- The checkpoint has flushed the pages, and its record is not yet in the control file. -/
def PastFlush : Phase → Prop
  | .idle | .synced => False
  | _ => True

structure StoreOk (s : Store) : Prop where
  log : LogOk s.log
  mem : ∀ page, s.mem page = contentAt s.log page s.log.length
  durable : s.durable ≤ s.log.length
  checkpoint : s.checkpointLsn ≤ s.log.length
  logged : ∀ lsn, s.phase = .logged lsn → lsn ≤ s.log.length
  disk : ∀ page, DiskOk s (PastFlush s.phase) page

lemma StoreOk.init : StoreOk Store.init := by
  refine ⟨LogOk.nil, fun page => rfl, le_refl 0, le_refl 0, fun lsn h => (by cases h), ?_⟩
  refine fun page => ⟨0, le_refl 0, rfl, fun i r hi => by omega, fun i r _ hr => ?_⟩
  simp [Store.init] at hr

lemma DiskOk.grow {past' : Prop} (rs : List WalRecord) (h : DiskOk s past page)
    (hdur : s.durable ≤ s.log.length) (hlog : s'.log = s.log ++ rs)
    (hdisk : s'.disk page = s.disk page) (hgrow : s.durable ≤ s'.durable)
    (hold : ∀ i r, s.log[i]? = some r → writes page r = true → s.checkpointLsn ≤ i + 1 ∧ ¬ past →
      s'.checkpointLsn ≤ i + 1 ∧ ¬ past')
    (hnew : ∀ i r, s.log.length ≤ i → s'.log[i]? = some r → writes page r = true →
      s'.checkpointLsn ≤ i + 1 ∧ ¬ past') : DiskOk s' past' page := by
  obtain ⟨point, hpoint, hcontent, hbefore, hafter⟩ := h
  refine ⟨point, hpoint.trans hgrow, ?_, fun i r hi hr hw => ?_, fun i r hi hr hw => ?_⟩
  · rw [hdisk, hcontent, hlog, contentAt_append rs (hpoint.trans hdur)]
  · rw [hlog, getElem?_append_left (by omega)] at hr
    refine committedIn_take hgrow ?_
    rw [hlog, take_append_of_le_length hdur]
    exact hbefore i r hi hr hw
  · rcases lt_or_ge i s.log.length with hlt | hge
    · rw [hlog, getElem?_append_left hlt] at hr
      exact hold i r hr hw (hafter i r hi hr hw)
    · exact hnew i r hge hr hw

lemma DiskOk.of_flushed (h : LogOk s.log)
    (hmem : s.disk page = contentAt s.log page s.log.length) (hdur : s.durable ≤ s.log.length)
    (hlsn : ∀ pg, s.disk page = some pg → (∃ r ∈ s.log, writes page r = true) → pg.lsn ≤ s.durable)
    (hcommit : ∀ r ∈ s.log, writes page r = true →
      committedIn (s.log.take s.durable) r.miniTxn = true) : DiskOk s past page := by
  have hnone : ∀ i r, s.durable ≤ i → s.log[i]? = some r → writes page r = false := by
    intro i r hi hr
    cases hw : writes page r with
    | false => rfl
    | true =>
      obtain ⟨pg, hpg, hle⟩ := h.le_lsn hr hw (lt_length_of_getElem? hr)
      have := hlsn pg (hmem.trans hpg) ⟨r, mem_of_getElem? hr, hw⟩
      omega
  refine ⟨s.durable, le_refl _, ?_, fun i r _ hr => hcommit r (mem_of_getElem? hr),
    fun i r hi hr hw => ?_⟩
  · rw [hmem]
    exact contentAt_eq_of_no_writes hdur fun i r hi _ hr => hnone i r hi hr
  · rw [hnone i r hi hr] at hw
    cases hw

/-- **One record is appended**, and the write it describes is made in memory. -/
theorem StoreOk.append {body : Body} {mem : Nat → Option Page} {next : Nat} {images : List Nat}
    (h : StoreOk s) (hr : Appendable s.log ⟨s.log.length + 1, txn, body⟩)
    (hmem : ∀ page, mem page = applyRecord page (s.mem page) ⟨s.log.length + 1, txn, body⟩)
    (hwrite : ∀ page, writes page ⟨s.log.length + 1, txn, body⟩ = true → ¬ PastFlush s.phase) :
    StoreOk { s.append txn body with mem, nextMiniTxn := next, fpiLogged := images } := by
  have hlen : (s.append txn body).log.length = s.log.length + 1 := by simp [Store.append]
  refine ⟨h.log.append hr, fun page => ?_, ?_, ?_, fun lsn hl => ?_, fun page => ?_⟩
  · rw [hlen, contentAt_succ (r := ⟨s.log.length + 1, txn, body⟩) (by simp [Store.append]),
      Store.append, contentAt_append _ (le_refl _), ← h.mem]
    exact hmem page
  · exact hlen ▸ le_succ_of_le h.durable
  · exact hlen ▸ le_succ_of_le h.checkpoint
  · exact hlen ▸ le_succ_of_le (h.logged lsn hl)
  · refine (h.disk page).grow _ h.durable rfl rfl (le_refl _) (fun _ _ _ _ hold => hold) ?_
    intro i r hi hr hw
    rcases getElem?_concat hr with hr | ⟨rfl, rfl⟩
    · exact absurd (lt_length_of_getElem? hr) (by omega)
    · exact ⟨le_succ_of_le h.checkpoint, hwrite page hw⟩

lemma StoreOk.append_control {body : Body} {next : Nat} (h : StoreOk s)
    (hnot : ∀ page, ¬ touches page ⟨s.log.length + 1, txn, body⟩) :
    StoreOk { s.append txn body with nextMiniTxn := next } := by
  refine h.append ⟨rfl, fun page pos e hbody => ?_, fun page image hbody => ?_,
    fun page ht => absurd ht (hnot page), fun page ht => absurd ht (hnot page)⟩ (fun page => ?_)
    fun page hw => absurd (.inl hw) (hnot page)
  · obtain rfl : body = .indexInsert page pos e := hbody
    exact absurd (.inl (by simp [writes])) (hnot page)
  · exact absurd (.inr ⟨image, hbody⟩) (hnot page)
  · rw [applyRecord_of_not_writes (by simpa using fun hw => hnot page (.inl hw))]
    rfl

/-! ### Writes -/

/-- The mini-transaction may write the page. -/
structure Ready (s : Store) (txn page : Nat) : Prop where
  running : committedIn s.log txn = false
  alone : ∀ r ∈ s.log, writes page r = true →
    r.miniTxn = txn ∨ committedIn s.log r.miniTxn = true
  phase : ¬ PastFlush s.phase

lemma Ready.of_allowed (hopen : s.isOpen txn = true) (hrest : (∀ r ∈ s.log, writes page r = true →
        r.miniTxn = txn ∨ committedIn s.log r.miniTxn = true) ∧
      (s.phase = .idle ∨ s.phase = .synced)) : Ready s txn page := by
  obtain ⟨halone, hphase⟩ := hrest
  refine ⟨?_, halone, ?_⟩
  · simp only [Store.isOpen, Bool.and_eq_true, Bool.not_eq_true'] at hopen
    exact hopen.2
  · rcases hphase with hp | hp <;> rw [hp] <;> exact id

lemma touches_page {q : Nat} (h : touches q r)
    (hbody : (∃ image, r.body = .fpi page image) ∨ (∃ image, r.body = .index page image) ∨
      ∃ pos e, r.body = .indexInsert page pos e) : q = page := by
  rcases hbody with ⟨image, hb⟩ | ⟨image, hb⟩ | ⟨pos, e, hb⟩ <;>
    rcases h with hw | ⟨image', hf⟩ <;> simp_all [writes]

lemma Ready.writeRaw (h : StoreOk s) (hready : Ready s txn page) (image : Node) :
    StoreOk (s.writeRaw txn page image) := by
  refine h.append ?_ (fun q => ?_) fun _ _ => hready.phase
  · refine ⟨rfl, fun q pos e hb => (by cases hb), fun q im hb => (by cases hb), fun q ht => ?_,
      fun q ht => hready.running⟩
    obtain rfl := touches_page ht (.inr (.inl ⟨image, rfl⟩))
    exact hready.alone
  · by_cases hq : q = page
    · subst hq
      simp [applyRecord]
    · simp only [applyRecord, if_neg (Ne.symm hq)]
      exact update_of_ne hq _ _

lemma Ready.maybeLogFpi {image : Page} (h : StoreOk s) (hready : Ready s txn page)
    (himage : s.mem page = some image) :
    StoreOk (s.maybeLogFpi txn page image) ∧ Ready (s.maybeLogFpi txn page image) txn page := by
  unfold Store.maybeLogFpi
  split
  · exact ⟨h, hready⟩
  · constructor
    · refine h.append ?_ (fun q => rfl) fun _ _ => hready.phase
      refine ⟨rfl, fun q pos e hb => (by cases hb), fun q im hb => ?_, fun q ht => ?_,
        fun q ht => hready.running⟩
      · cases hb
        rw [← h.mem, himage]
      · obtain rfl := touches_page ht (.inl ⟨image, rfl⟩)
        exact hready.alone
    · have hsame : ∀ t, committedIn (s.append txn (.fpi page image)).log t =
          committedIn s.log t := by
        simp [Store.append, committedIn]
      refine ⟨(hsame txn).trans hready.running, fun r hr hw => ?_, hready.phase⟩
      rcases mem_append.1 hr with hr | hr
      · rw [show committedIn _ r.miniTxn = _ from hsame r.miniTxn]
        exact hready.alone r hr hw
      · rw [mem_singleton.1 hr] at hw
        cases hw

lemma Ready.logIndexInsert {pos : Nat} {e : NodeEntry} {lsn : Nat} {entries : Leaf}
    {next : Option Nat} (h : StoreOk s) (hready : Ready s txn page)
    (hleaf : s.mem page = some ⟨lsn, .leaf entries next⟩) (hpos : pos ≤ entries.length) :
    StoreOk (s.logIndexInsert txn page pos e entries next) := by
  refine h.append ?_ (fun q => ?_) fun _ _ => hready.phase
  · refine ⟨rfl, fun q pos' e' hb => ?_, fun q im hb => (by cases hb), fun q ht => ?_,
      fun q ht => hready.running⟩
    · cases hb
      exact ⟨lsn, entries, next, by rw [← h.mem, hleaf], hpos⟩
    · obtain rfl := touches_page ht (.inr (.inr ⟨pos, e, rfl⟩))
      exact hready.alone
  · by_cases hq : q = page
    · subst hq
      simp [applyRecord, hleaf]
    · simp only [applyRecord, if_neg (Ne.symm hq)]
      exact update_of_ne hq _ _

lemma Store.maybeLogFpi_mem (s : Store) (txn page : Nat) (image : Page) :
    (s.maybeLogFpi txn page image).mem = s.mem := by
  unfold Store.maybeLogFpi
  split <;> rfl

lemma Ready.insertEntry {pageSize : Nat} {e : NodeEntry} (h : StoreOk s)
    (hready : Ready s txn page) (hs : s.insertEntry pageSize txn page e = some s') :
    StoreOk s' := by
  unfold Store.insertEntry at hs
  split at hs
  · next lsn entries next hleaf =>
    split at hs
    · cases hs
      exact h
    · next pos hsearch =>
      split at hs
      · cases hs
        obtain ⟨hok, hready'⟩ := hready.maybeLogFpi h hleaf
        refine hready'.logIndexInsert hok ((congrFun (Store.maybeLogFpi_mem ..) page).trans hleaf)
          ?_
        exact binarySearchBy_error_le_length hsearch
      · cases hs
  · cases hs

/-! ### Flushes and checkpoints -/

lemma StoreOk.flush (h : StoreOk s) (hs : s.flush page = some s')
    (hcommit : ∀ r ∈ s.log, writes page r = true →
      committedIn (s.log.take s.durable) r.miniTxn = true) : StoreOk s' := by
  unfold Store.flush at hs
  split at hs
  · next pg hpg =>
    obtain ⟨hle, ⟨⟩⟩ := Option.ite_none_right_eq_some.1 hs
    refine ⟨h.log, h.mem, h.durable, h.checkpoint, h.logged, fun q => ?_⟩
    by_cases hq : q = page
    · subst hq
      refine DiskOk.of_flushed h.log ?_ h.durable (fun pg' hpg' _ => ?_) hcommit
      · simpa [hpg] using h.mem q
      · simp only [update_self, Option.some.injEq] at hpg'
        rw [← hpg']
        exact hle
    · exact (h.disk q).grow [] h.durable (append_nil _).symm
        (update_of_ne hq _ _) (le_refl _) (fun _ _ _ _ hold => hold)
        fun i r hi hr => absurd (lt_length_of_getElem? hr) (by simpa using hi)
  · cases hs

lemma mem_writtenPages (hr : r ∈ s.log) (hw : writes page r = true) : page ∈ s.writtenPages := by
  refine mem_filterMap.2 ⟨r, hr, ?_⟩
  unfold writes at hw
  split at hw <;> simp_all

lemma StoreOk.of_same_log (h : StoreOk s) (hlog : s'.log = s.log) (hmem : s'.mem = s.mem)
    (hdisk : s'.disk = s.disk) (hgrow : s.durable ≤ s'.durable) (hdur : s'.durable ≤ s.log.length)
    (hckpt : s'.checkpointLsn ≤ s.log.length)
    (hlogged : ∀ lsn, s'.phase = .logged lsn → lsn ≤ s.log.length)
    (hold : ∀ page i r, s.log[i]? = some r → writes page r = true →
      s.checkpointLsn ≤ i + 1 ∧ ¬ PastFlush s.phase →
      s'.checkpointLsn ≤ i + 1 ∧ ¬ PastFlush s'.phase) : StoreOk s' := by
  constructor
  · rw [hlog]
    exact h.log
  · intro page
    rw [hlog, hmem]
    exact h.mem page
  · rw [hlog]
    exact hdur
  · rw [hlog]
    exact hckpt
  · rw [hlog]
    exact hlogged
  · intro page
    refine (h.disk page).grow [] h.durable (by rw [hlog, append_nil]) (by rw [hdisk])
      hgrow (hold page) fun i r hi hr => ?_
    rw [hlog] at hr
    exact absurd (lt_length_of_getElem? hr) (by omega)

lemma StoreOk.flushAll (h : StoreOk s)
    (hcommit : ∀ page ∈ s.writtenPages, ∀ r ∈ s.log, writes page r = true →
      committedIn (s.log.take s.durable) r.miniTxn = true) : StoreOk s.flushAll := by
  unfold Store.flushAll
  split
  · next hall =>
    refine ⟨h.log, h.mem, h.durable, h.checkpoint, fun lsn hl => (by cases hl), fun page => ?_⟩
    refine DiskOk.of_flushed h.log (h.mem page) h.durable (fun pg hpg ⟨r, hr, hw⟩ => ?_)
      fun r hr hw => hcommit page (mem_writtenPages hr hw) r hr hw
    have hpage := all_eq_true.1 hall page (mem_writtenPages hr hw)
    rw [show s.mem page = some pg from hpg] at hpage
    simpa using hpage
  · exact h.of_same_log rfl rfl rfl (le_refl _) h.durable h.checkpoint
      (fun lsn hl => by cases hl) fun _ _ _ _ _ hold => ⟨hold.1, id⟩

lemma StoreOk.runCheckpoint (h : StoreOk s) (hallowed : Allowed s .checkpoint) :
    StoreOk s.checkpoint := by
  unfold Store.checkpoint
  split
  · next hphase =>
    exact h.of_same_log rfl rfl rfl h.durable (le_refl _) h.checkpoint
      (fun lsn hl => by cases hl) fun _ _ _ _ _ hold => ⟨hold.1, id⟩
  · next hphase => exact h.flushAll (hallowed hphase)
  · next hphase =>
    refine h.of_same_log rfl rfl rfl (le_refl _) h.durable h.checkpoint
      (fun lsn hl => by cases hl) fun _ _ _ _ _ hold => ?_
    rw [hphase] at hold
    exact absurd trivial hold.2
  · next hphase =>
    have hlog : StoreOk (s.append 0 .checkpoint) := h.append_control (by simp [touches, writes])
    have hlen : (s.append 0 .checkpoint).log.length = s.log.length + 1 := by simp [Store.append]
    refine hlog.of_same_log rfl rfl rfl (le_succ_of_le h.durable) (le_of_eq hlen.symm)
      hlog.checkpoint (fun lsn hl => by cases hl; exact le_of_eq hlen.symm) fun _ _ _ _ _ hold => ?_
    rw [show (s.append 0 .checkpoint).phase = _ from hphase] at hold
    exact absurd trivial hold.2
  · next lsn hphase =>
    -- The pages have not been written since the flush, so no record before this one is needed.
    refine h.of_same_log rfl rfl rfl (le_refl _) h.durable (h.logged lsn hphase)
      (fun lsn hl => by cases hl) fun _ _ _ _ _ hold => ?_
    rw [hphase] at hold
    exact absurd trivial hold.2

/-! ## Runs -/

lemma StoreOk.step {pageSize : Nat} {a : Action} (h : StoreOk s) (hallowed : Allowed s a)
    (hs : step pageSize s a = some s') : StoreOk s' := by
  cases a with
  | begin =>
    cases hs
    exact h.append_control (by simp [touches, writes])
  | writeRaw txn page image =>
    obtain ⟨hopen, ⟨⟩⟩ := Option.ite_none_right_eq_some.1 hs
    exact (Ready.of_allowed hopen hallowed).writeRaw h image
  | insertEntry txn page e =>
    obtain ⟨hopen, hs⟩ := Option.ite_none_right_eq_some.1 hs
    exact (Ready.of_allowed hopen hallowed).insertEntry h hs
  | commit txn =>
    obtain ⟨-, ⟨⟩⟩ := Option.ite_none_right_eq_some.1 hs
    exact h.append_control (by simp [touches, writes])
  | sync upTo =>
    obtain ⟨hupTo, ⟨⟩⟩ := Option.ite_none_right_eq_some.1 hs
    exact h.of_same_log rfl rfl rfl hupTo.1 hupTo.2 h.checkpoint h.logged
      fun _ _ _ _ _ hold => hold
  | flush page => exact h.flush hs hallowed
  | checkpoint =>
    cases hs
    exact h.runCheckpoint hallowed

/-- **Index pages recover atomically** along every run whose steps are allowed. -/
theorem recovers_run (pageSize : Nat) {s : Store}
    (h : Reached (step pageSize) Allowed Store.init s) : RecoversAtomically s := by
  have hok : StoreOk s := h.invariant StoreOk StoreOk.init fun _ _ _ hs hallowed hstep =>
    hs.step hallowed hstep
  exact ⟨hok.mem, fun n hdn hn page => recoversPage_of_ok hok.log (hok.disk page) hdn hn⟩

/-- An empty leaf, two inserts into it that commit in order, a checkpoint up to its flush, and a
third insert whose commit is lost. -/
def insertsInOrder : List Action :=
  [.begin, .writeRaw 1 0 (.leaf [] none), .commit 1,
    .begin, .insertEntry 2 0 ⟨.int 1, ⟨0, 0⟩, []⟩, .commit 2,
    .begin, .insertEntry 3 0 ⟨.int 2, ⟨0, 1⟩, []⟩, .commit 3,
    .checkpoint, .checkpoint, .checkpoint, .checkpoint, .checkpoint,
    .begin, .insertEntry 4 0 ⟨.int 3, ⟨0, 2⟩, []⟩]

/-- After that run the leaf recovers with the first two entries. -/
theorem recovers_run_in_order :
    RecoversAtomically (runState (step 4096) Store.init insertsInOrder) ∧
      recover (runState (step 4096) Store.init insertsInOrder) 13 0 =
        some ⟨8, .leaf [⟨.int 1, ⟨0, 0⟩, []⟩, ⟨.int 2, ⟨0, 1⟩, []⟩] none⟩ := by
  have hallowed : RunAllowed (step 4096) Allowed Store.init insertsInOrder := by decide +kernel
  have hreached := hallowed.reached_runState (by decide +kernel)
  exact ⟨recovers_run 4096 hreached, by decide +kernel⟩

/-- Two mini-transactions insert into one leaf, and only the second one commits. -/
def insertsOutOfOrder : List Action :=
  [.begin, .writeRaw 1 0 (.leaf [] none), .commit 1,
    .begin, .begin, .insertEntry 2 0 ⟨.int 1, ⟨0, 0⟩, []⟩, .insertEntry 3 0 ⟨.int 2, ⟨0, 1⟩, []⟩,
    .commit 3, .sync 8]

/-- **A committed insert that recovery loses**: the entry is in memory and its mini-transaction is
durably committed, but the recovered leaf is empty. -/
theorem committed_insert_lost :
    ∃ s r, Reached (step 4096) (fun _ _ => True) Store.init s ∧ ¬ RecoversAtomically s ∧
      r ∈ s.log ∧ r.body = .indexInsert 0 1 ⟨.int 2, ⟨0, 1⟩, []⟩ ∧
      committedIn (s.log.take s.durable) r.miniTxn = true ∧
      recover s s.durable 0 = some ⟨2, .leaf [] none⟩ := by
  have hreached : Reached (step 4096) (fun _ _ => True) Store.init
      (runState (step 4096) Store.init insertsOutOfOrder) :=
    reached_runState (by simp) (by decide +kernel)
  refine ⟨_, ⟨7, 3, .indexInsert 0 1 ⟨.int 2, ⟨0, 1⟩, []⟩⟩, hreached, fun hrec => ?_,
    by decide +kernel, rfl, by decide +kernel, by decide +kernel⟩
  obtain ⟨point, -, -, hpoint⟩ := hrec.recovers 8 (by decide +kernel) (by decide +kernel) 0
  -- The committed write comes after the one that is not.
  have hfirst := hpoint 5 ⟨6, 2, .indexInsert 0 0 ⟨.int 1, ⟨0, 0⟩, []⟩⟩ (by decide)
    (by decide +kernel) (by decide)
  have hsecond := hpoint 6 ⟨7, 3, .indexInsert 0 1 ⟨.int 2, ⟨0, 1⟩, []⟩⟩ (by decide)
    (by decide +kernel) (by decide)
  have hlt := hsecond.1 (by decide +kernel)
  have hcommitted := hfirst.2 (by omega)
  revert hcommitted
  decide +kernel

end IndexLog

end UniDb
