import UniDb.Engine.Heap
import UniDb.Storage.Totals

/-!
# The row counter and `COUNT(*)`

The catalog keeps one number per table. It is moved by the deltas of committed transactions, and a
`SELECT COUNT(*)` without a predicate returns it under any snapshot.
-/

namespace UniDb

open List TxnInner Pool Engine Option

/-! ## What a version counts for -/

def effect (sees : Nat → Bool) (y : Nat) : Int := if sees y then 1 else 0

/-- What a version adds to the rows of a reader to whom the transactions in `sees` have taken
effect: 1 for its creation, -1 for its deletion. -/
def net (sees : Nat → Bool) (t : Tuple Row) : Int := effect sees t.xmin - effect sees t.xmax

/-- Visibility counts creations and deletions, for a reader who knows of every creation it knows the
deletion of. -/
lemma ite_visible_eq_net {S : Snapshot} {x : Nat} {t : Tuple Row} (hx : 0 < x)
    (hclosed : t.xmax ≠ 0 → S.sees x t.xmax = true → S.sees x t.xmin = true) :
    (if t.visible S x = true then (1 : Int) else 0) = net (S.sees x) t := by
  have hzero : S.sees x 0 = false := by
    simp [Snapshot.sees, isCommittedAtSnapshot_zero]
    omega
  unfold net effect
  by_cases hv : t.visible S x = true
  · obtain ⟨hmin, hmax⟩ := isVisible_iff.1 hv
    have hmax' : S.sees x t.xmax = false := hmax.elim (fun h0 => h0 ▸ hzero) id
    simp [hv, hmin, hmax']
  · rw [if_neg hv]
    have hn := mt isVisible_iff.2 hv
    by_cases hmax : S.sees x t.xmax = true
    · have h0 : t.xmax ≠ 0 := by
        intro h0
        rw [h0, hzero] at hmax
        cases hmax
      simp [hmax, hclosed h0 hmax]
    · have hmin : ¬ S.sees x t.xmin = true := fun h => hn ⟨h, .inr (by simpa using hmax)⟩
      simp [hmax, hmin]

variable {t : Table} {page : Nat} {row : Row} {T : TxnInner} {txn : Transaction} {name : String}
  {tables : List Table}

section writes
variable {P P' : Pool Row} {F : Nat → Bool} {pages : List Nat} {x : Nat} {r : RowId}

lemma net_fresh (hF : F 0 = false) (row : Row) (x : Nat) (prev : Option RowId) :
    net F (Tuple.fresh row x prev) = effect F x := by
  show effect F x - effect F 0 = effect F x
  simp [effect, hF]

lemma net_stamped (hF : F 0 = false) {t u : Tuple Row} (hmax : t.xmax = 0)
    (hmin' : u.xmin = t.xmin) (hmax' : u.xmax = x) : net F u = net F t - effect F x := by
  simp [net, effect, hmax, hmin', hmax', hF]

lemma total_insertRow (hF : F 0 = false) (hnodup : pages.Nodup) (hp : page ∈ pages) (row : Row) :
    (P.insertRow x page row).1.total pages (net F) = P.total pages (net F) + effect F x := by
  obtain ⟨hfresh, hpage, htuple, -⟩ := P.insertRow_spec x page row
  generalize (P.insertRow x page row).2.1 = s at hfresh hpage htuple
  rw [total_update (P := P) hnodup (hpage ▸ hp) fun s' hs' => by rw [htuple, if_neg hs']]
  simp [weight, htuple, hfresh, net_fresh hF]

variable {log : List UndoAction}

lemma total_deleteRow (hF : F 0 = false) (hnodup : pages.Nodup) (hr : r.pageId ∈ pages)
    (h : P.deleteRow x r = .ok (P', log)) :
    P'.total pages (net F) = P.total pages (net F) - effect F x := by
  obtain ⟨t, ht, hmax, -, htuple⟩ := deleteRow_spec h
  rw [total_update (P := P) hnodup hr fun s' hs' => by rw [htuple, if_neg hs']]
  have hnet := net_stamped (u := t.setXmax x) (x := x) hF hmax rfl rfl
  simp [weight, htuple, ht]
  omega

lemma total_updateRow (hF : F 0 = false) (hnodup : pages.Nodup) {path : UpdatePath}
    {new : RowId} (h : P.updateRow x path r page row = .ok (P', new, log)) (hr : r.pageId ∈ pages)
    (hpage : (if path = .hot then r.pageId else page) ∈ pages) :
    P'.total pages (net F) = P.total pages (net F) := by
  obtain ⟨t, ht, hmax, hnew, hpage', -, htuple⟩ := updateRow_spec h
  have hne : r ≠ new := by
    rintro rfl
    cases hnew.symm.trans ht
  have hr' : P'.tuple? r = some (path.link new (t.setXmax x)) := by
    rw [htuple, if_neg hne, if_pos rfl]
  -- first the new version, then the stamp on the old one
  have hQ : ∀ s, (P'.modify r fun _ => t).tuple? s = if s = r then some t else P'.tuple? s := by
    intro s
    rw [tuple?_modify, hr', map_some]
  have h1 : (P'.modify r fun _ => t).total pages (net F) = P.total pages (net F) + effect F x := by
    rw [total_update (P := P) hnodup (hpage' ▸ hpage) fun s hs => by
      rw [hQ, htuple]
      split
      · rename_i he
        rw [he, ht]
      · rfl]
    simp [weight, hQ, htuple, hnew, hne.symm, net_fresh hF]
  have h2 : P'.total pages (net F) = (P'.modify r fun _ => t).total pages (net F) +
      (P'.weight (net F) r - (P'.modify r fun _ => t).weight (net F) r) :=
    total_update hnodup hr fun s hs => by rw [hQ, if_neg hs]
  have hnet := net_stamped (u := path.link new (t.setXmax x)) (x := x) hF hmax
    (by simp [Tuple.setXmax]) (by simp [Tuple.setXmax])
  rw [h2, h1]
  simp [weight, hQ, hr', hnet]

end writes

namespace Engine

variable {e e' : Engine} {x : Nat}

/-! ## Bookkeeping -/

section
variable (e : Engine) (name : String)

/-- The transactions that have taken effect for good, as readers tell. -/
def finished (y : Nat) : Bool := decide (e.txns.Finished y)

def deltasOf (T : TxnInner) (x : Nat) (name : String) : Option Int :=
  (T.active x).bind fun txn => txn.rowCountDeltas name

def stmtDelta (stmt : Option Stmt) (name : String) : Int :=
  (stmt.map fun s => if s.table = name then s.delta else 0).getD 0

/-- Rows of the table a running transaction has added, less those it has deleted. -/
def ownDelta (x : Nat) (name : String) : Int :=
  (deltasOf e.txns x name).getD 0 + stmtDelta (e.stmts x) name

/-- The deltas of committed transactions that have not reached the catalog. -/
def unappliedDelta : Int :=
  (e.unapplied.map fun d => (d name).getD 0).sum

/-- Rows that finished transactions have added to the table, less those they have deleted, as far
as the snapshot does not know of it. -/
def unseenNet (t : Table) (S : Snapshot) (x : Nat) : Int :=
  e.pool.total t.pages (net fun y => e.finished y && !S.sees x y)

/-- The counter of the table is what the reader sees: what it has itself changed and what has not
reached the catalog makes up for what its snapshot does not know of. -/
def Current (t : Table) (S : Snapshot) (x : Nat) : Prop :=
  e.ownDelta x name + e.unappliedDelta name = e.unseenNet t S x

end

lemma finished_zero (e : Engine) : e.finished 0 = false := by simp [finished, TxnInner.Finished]

lemma finished_eq_false {y : Nat} (hy : e.txns.active y ≠ none) : e.finished y = false := by
  simp [finished, TxnInner.Finished, hy]

theorem countVisible_eq {log : Nat → List UndoAction} (h : HeapInv e.pool T log)
    (hT : e.txns.Steady T) (hx : T.active x = some txn) :
    e.countVisible t txn.snapshot x + e.unseenNet t txn.snapshot x =
      e.pool.total t.pages (net e.finished) + e.pool.total t.pages (net (· == x)) := by
  have hxne : T.active x ≠ none := by simp [hx]
  have hpos := (h.active_lt x hxne).1
  have hseen : ∀ y, effect (txn.snapshot.sees x) y +
      effect (fun y => e.finished y && !txn.snapshot.sees x y) y =
      effect e.finished y + effect (· == x) y := by
    intro y
    unfold effect
    by_cases hy : y = x
    · subst hy
      have hf : e.finished y = false := finished_eq_false (mt (hT.domain y).2 hxne)
      simp [Snapshot.sees, hf]
    · by_cases hs : txn.snapshot.sees x y = true
      · have hf : e.finished y = true := by
          have := (h.sees_cases hx hs).resolve_left hy
          rw [hT.finished_iff] at this
          simpa [finished] using this
        simp [hs, hf, hy]
      · simp [hs, hy]
  unfold countVisible unseenNet
  rw [length_scan, ← total_add, ← total_add]
  refine total_congr fun r _ => weight_congr fun t' ht' => ?_
  rw [ite_visible_eq_net hpos (h.closed x txn hx r t' ht'), net, net, net, net]
  have h1 := hseen t'.xmin
  have h2 := hseen t'.xmax
  omega

/-! ## The invariant -/

structure CountInv (e : Engine) : Prop where
  /-- The deltas of a running transaction are what it did to the table. -/
  own : ∀ name t x, e.tables name = some t → e.txns.active x ≠ none →
    e.ownDelta x name = e.pool.total t.pages (net (· == x))
  /-- A known counter, brought up to date, is what finished transactions did to the table. -/
  known : ∀ name t, e.tables name = some t → t.rowCount ≠ rowCountUnknown →
    t.rowCount + e.unappliedDelta name = e.pool.total t.pages (net e.finished)
  plain : ∀ x name, deltasOf e.txns x name ≠ some truncateSentinel
  plainUnapplied : ∀ ds ∈ e.unapplied, ∀ name : String, ds name ≠ some truncateSentinel

/-- Conditions on the steps: no counter leaves its range, a statement is given up only before its
first row, a table is truncated only when nobody has pending changes to it, and an unknown counter
is taken only from a reader who counts what finished transactions did. -/
def CountOk (e : Engine) : Action → Prop
  | .failStmt x => ∀ stmt, e.stmts x = some stmt → stmt.pendingUndo = [] ∧ stmt.delta = 0
  | .abort x => ∀ stmt, e.stmts x = some stmt → stmt.pendingUndo = []
  | .endStmt x _ => ∀ stmt, e.stmts x = some stmt → i64Min < stmt.delta ∧
      i64Min < (deltasOf e.txns x stmt.table).getD 0 + stmt.delta ∧
      (deltasOf e.txns x stmt.table).getD 0 + stmt.delta ≤ i64Max
  | .applyDeltas i => ∀ name t ds d, e.tables name = some t → t.rowCount ≠ rowCountUnknown →
      e.unapplied[i]? = some ds → ds name = some d →
      i64Min < t.rowCount + d ∧ t.rowCount + d ≤ i64Max
  | .truncate _ table => e.unappliedDelta table = 0 ∧
      ∀ y, e.txns.active y ≠ none → e.ownDelta y table = 0
  | .countStar x table true => ∀ t T txn, e.tables table = some t → t.rowCount = rowCountUnknown →
      e.txns.snapshotForStatement x = some T → T.active x = some txn →
      e.Current table t txn.snapshot x
  | _ => True

lemma CountOk.lossless {a : Action} (h : e.CountOk a) : e.Lossless a := by
  cases a <;> first | exact trivial | exact h | exact fun stmt hs => (h stmt hs).1

lemma deltasOf_refreshed {T' : TxnInner} {S : Snapshot} (h : TxnInner.Refreshed T T' x txn S)
    (y : Nat) (name : String) : deltasOf T' y name = deltasOf T y name := by
  unfold deltasOf
  by_cases hy : y = x
  · subst hy
    rw [h.new, h.old]
    rfl
  · rw [h.frame y hy]

lemma deltasOf_recordUndo (T : TxnInner) (x : Nat) (actions : List UndoAction) (y : Nat)
    (name : String) : deltasOf (T.recordUndo x actions) y name = deltasOf T y name := by
  unfold TxnInner.recordUndo
  split
  · rename_i txn hx
    unfold deltasOf
    by_cases hy : y = x
    · subst hy
      simp [hx]
    · rw [set_active_ne T hy]
  · rfl

lemma finished_steady (hT : e.txns.Steady e'.txns) : e'.finished = e.finished := by
  funext y
  simp only [finished, hT.finished_iff]

/-- What is known of the table's counter and of the deltas under `name`. -/
def Counts (e : Engine) (name : String) (t : Table) : Prop :=
  (∀ x, e.txns.active x ≠ none → e.ownDelta x name = e.pool.total t.pages (net (· == x))) ∧
    (t.rowCount ≠ rowCountUnknown →
      t.rowCount + e.unappliedDelta name = e.pool.total t.pages (net e.finished))

lemma CountInv.counts (h : e.CountInv) (ht : e.tables name = some t) : e.Counts name t :=
  ⟨fun x => h.own name t x ht, h.known name t ht⟩

lemma CountInv.steady (h : e.CountInv) (hpool : e'.pool = e.pool) (hT : e.txns.Steady e'.txns)
    (hun : e'.unapplied = e.unapplied) (htab : ∀ name t, e'.tables name = some t → e.Counts name t)
    (hown : ∀ y name, e'.ownDelta y name = e.ownDelta y name)
    (hplain : ∀ y name, deltasOf e'.txns y name ≠ some truncateSentinel) : e'.CountInv := by
  refine ⟨fun name t y ht hy => ?_, fun name t ht hk => ?_, hplain, ?_⟩
  · rw [hown, hpool]
    exact (htab name t ht).1 y (mt (hT.domain y).2 hy)
  · rw [unappliedDelta, hun, hpool, finished_steady hT]
    exact (htab name t ht).2 hk
  · rw [hun]
    exact h.plainUnapplied

lemma CountInv.congr (h : e.CountInv) (hpool : e'.pool = e.pool) (hT : e.txns.Steady e'.txns)
    (hun : e'.unapplied = e.unapplied) (htab : ∀ name t, e'.tables name = some t → e.Counts name t)
    (hdeltas : ∀ y name, deltasOf e'.txns y name = deltasOf e.txns y name)
    (hstmt : ∀ y name, stmtDelta (e'.stmts y) name = stmtDelta (e.stmts y) name) : e'.CountInv := by
  refine h.steady hpool hT hun htab (fun y name => ?_) fun y name => ?_
  · rw [ownDelta, ownDelta, hdeltas, hstmt]
  · rw [hdeltas]
    exact h.plain y name

lemma claimPage_self (hp : PagesOk e.names e.tables) {tables : String → Option Table}
    (ht : e.tables name = some t) (hclaim : e.claimPage t page = some tables) :
    ∃ t', tables name = some t' ∧ page ∈ t'.pages ∧ t.pages ⊆ t'.pages := by
  obtain ⟨hmem, rfl⟩ | ⟨-, -, -, rfl⟩ := claimPage_spec hclaim
  · exact ⟨t, ht, hmem, List.Subset.refl _⟩
  · refine ⟨{ t with pages := t.pages ++ [page] }, ?_, mem_append_right _ (.head _),
      subset_append_left ..⟩
    rw [← (hp.named name t ht).1]
    exact Function.update_self ..

lemma claimPage_tables (hp : PagesOk e.names e.tables) {tables : String → Option Table}
    (ht : e.tables name = some t) (hclaim : e.claimPage t page = some tables) {name' : String}
    {u' : Table} (hu' : tables name' = some u') :
    ∃ u, e.tables name' = some u ∧ u'.rowCount = u.rowCount ∧
      ∀ f, e.pool.total u'.pages f = e.pool.total u.pages f := by
  obtain ⟨-, rfl⟩ | ⟨-, -, hempty, rfl⟩ := claimPage_spec hclaim
  · exact ⟨u', hu', rfl, fun f => rfl⟩
  · rcases setTable_eq_some hu' with ⟨rfl, rfl⟩ | ⟨-, hu⟩
    · exact ⟨t, by rw [(hp.named name t ht).1]; exact ht, rfl, fun f => total_append_empty hempty⟩
    · exact ⟨u', hu, rfl, fun f => rfl⟩

lemma CountInv.write (h : e.CountInv) (hk : e.HeapOk) (hp : PagesOk e.names e.tables)
    (hp' : PagesOk e.names e'.tables) (hT : e.txns.Steady e'.txns) (hx : e.txns.active x = some txn)
    (ht : e.tables name = some t) (hclaim : e.claimPage t page = some e'.tables) {d : Int}
    (htotal : ∀ F : Nat → Bool, F 0 = false → ∀ pages : List Nat, pages.Nodup → page ∈ pages →
      t.pages ⊆ pages → e'.pool.total pages (net F) = e.pool.total pages (net F) + d * effect F x)
    (hframe : ∀ s, s.pageId ∉ t.pages → s.pageId ≠ page → e'.pool.tuple? s = e.pool.tuple? s)
    (hdeltas : ∀ y name', deltasOf e'.txns y name' = deltasOf e.txns y name')
    (hstmt : ∀ y name', stmtDelta (e'.stmts y) name' =
      stmtDelta (e.stmts y) name' + if y = x ∧ name' = name then d else 0)
    (hun : e'.unapplied = e.unapplied) : e'.CountInv := by
  -- the totals of every table, for every set of transactions
  have key : ∀ F : Nat → Bool, F 0 = false → ∀ name' u', e'.tables name' = some u' →
      ∃ u, e.tables name' = some u ∧ u'.rowCount = u.rowCount ∧ e'.pool.total u'.pages (net F) =
          e.pool.total u.pages (net F) + if name' = name then d * effect F x else 0 := by
    intro F hF name' u' hu'
    obtain ⟨u, hu, hcount, htot⟩ := claimPage_tables hp ht hclaim hu'
    obtain ⟨t', ht', hmem, hsub⟩ := claimPage_self hp ht hclaim
    refine ⟨u, hu, hcount, ?_⟩
    rw [← htot]
    by_cases hname : name' = name
    · subst hname
      cases ht'.symm.trans hu'
      rw [if_pos rfl, htotal F hF u'.pages (hp'.nodup name' u' hu') hmem hsub]
    · rw [if_neg hname, add_zero]
      refine total_congr fun s hs => ?_
      -- the write is on pages of the other table
      have hnot : s.pageId ∉ t'.pages := fun hin =>
        hname (hp'.disjoint name' u' name t' s.pageId hu' ht' hs hin)
      rw [weight, weight, hframe s (fun hin => hnot (hsub hin)) fun he =>
        hnot (he ▸ hmem)]
  have hself : ∀ y : Nat, e.txns.active y ≠ none → ((0 : Nat) == y) = false := by
    intro y hy
    have := (hk.heap.active_lt y hy).1
    simp
    omega
  refine ⟨fun name' u' y hu' hy => ?_, fun name' u' hu' hk => ?_, fun y name' => ?_, ?_⟩
  · have hy' := mt (hT.domain y).2 hy
    obtain ⟨u, hu, -, htot⟩ := key (· == y) (hself y hy') name' u' hu'
    have hold := h.own name' u y hu hy'
    rw [ownDelta] at hold ⊢
    rw [hdeltas, hstmt, htot, ← hold]
    by_cases hname : name' = name
    · by_cases hyx : y = x
      · simp [hyx, effect]
        omega
      · have hxy : ¬ x = y := fun he => hyx he.symm
        simp [hyx, hxy, effect]
    · simp [hname]
  · obtain ⟨u, hu, hcount, htot⟩ := key e'.finished (finished_zero e') name' u' hu'
    have hfx : effect e'.finished x = 0 := by
      rw [finished_steady hT, effect, finished_eq_false (by simp [hx])]
      rfl
    rw [hcount] at hk ⊢
    rw [unappliedDelta, hun, htot, hfx, finished_steady hT]
    have := h.known name' u hu hk
    rw [unappliedDelta] at this
    rw [this]
    simp
  · rw [hdeltas]
    exact h.plain y name'
  · rw [hun]
    exact h.plainUnapplied

lemma stmtDelta_setStmt {stmt : Stmt} {stmt' : Option Stmt} (hstmt : e.stmts x = some stmt)
    {d : Int}
    (h : ∀ name, stmtDelta stmt' name = if stmt.table = name then stmt.delta + d else 0) (y : Nat)
    (name : String) : stmtDelta (e.setStmt x stmt' y) name =
      stmtDelta (e.stmts y) name + if y = x ∧ name = stmt.table then d else 0 := by
  by_cases hy : y = x
  · subst hy
    rw [setStmt_self, hstmt, h]
    by_cases hname : stmt.table = name
    · simp [stmtDelta, hname]
    · have hname' : ¬ name = stmt.table := fun he => hname he.symm
      simp [stmtDelta, hname, hname']
  · rw [setStmt_ne e hy]
    simp [hy]

lemma insertRow_countInv (h : e.CountInv) (hk : e.HeapOk) (hp : PagesOk e.names e.tables)
    (hs : e.insertRow x page row = some e') : e'.CountInv := by
  have hp' : PagesOk e'.names e'.tables := hp.step (a := .insertRow x page row) hs
  obtain ⟨txn, stmt, t, T, S, tables, hrun, -, -, -, hT, href, -, -, hclaim, rfl⟩ :=
    insertRow_spec hs
  obtain ⟨hx, hstmt, ht⟩ := running_eq_some.1 hrun
  obtain ⟨-, hpage, htuple, -⟩ := e.pool.insertRow_spec x page row
  refine h.write hk hp hp' ((snapshotForStatement_steady hT).trans_recordUndo x _) hx ht
    hclaim (fun F hF pages hnodup hmem _ => ?_) (fun s _ hs' => ?_) (fun y name' => ?_)
    (stmtDelta_setStmt hstmt fun _ => rfl) rfl
  · rw [total_insertRow hF hnodup hmem, one_mul]
  · rw [htuple, if_neg]
    rintro rfl
    exact hs' hpage
  · rw [deltasOf_recordUndo, deltasOf_refreshed href]

lemma stageWrites_table (path : UpdatePath) (t : TableDef) (old new : RowId)
    (before after : Row) (stmt : Stmt) :
    (stageWrites path t old new before after stmt).table = stmt.table ∧
      (stageWrites path t old new before after stmt).delta = stmt.delta := by
  unfold stageWrites
  split <;> exact ⟨rfl, rfl⟩

lemma recordUndo_stmt (T : TxnInner) (stmt : Stmt) (x : Nat) (actions : List UndoAction) :
    (recordUndo T stmt x actions).2.table = stmt.table ∧
      (recordUndo T stmt x actions).2.delta = stmt.delta := by
  unfold recordUndo
  split <;> exact ⟨rfl, rfl⟩

variable {r : RowId} {table : String}

lemma updateRow_countInv (h : e.CountInv) (hk : e.HeapOk) (hp : PagesOk e.names e.tables)
    {setCols : List String} {xpage : Bool} (hs : e.updateRow x setCols r page xpage row = some e') :
    e'.CountInv := by
  have hp' : PagesOk e'.names e'.tables := hp.step (a := .updateRow x setCols r page xpage row) hs
  obtain ⟨txn, stmt, t, gates, old, T, S, tables, pool, new, actions, hrun, -, -, hr, -, -, hT,
    href, -, -, -, -, hclaim, hw, rfl⟩ := updateRow_spec hs
  obtain ⟨hx, hstmt, ht⟩ := running_eq_some.1 hrun
  obtain ⟨_, -, -, -, hpage, -, htuple⟩ := Pool.updateRow_spec hw
  refine h.write hk hp hp' (recordUndo_steady (updateSnapshot_steady hT) ..) hx ht hclaim (d := 0)
    (fun F hF pages hnodup hmem hsub => ?_) (fun s hs1 hs2 => ?_) (fun y name' => ?_)
    (stmtDelta_setStmt hstmt fun name' => ?_) rfl
  · rw [total_updateRow hF hnodup hw (hsub hr) hmem]
    simp
  · have h1 : s ≠ new := fun he => hs2 (by rw [he, hpage])
    have h2 : s ≠ r := fun he => hs1 (he ▸ hr)
    exact (htuple s).trans (by rw [if_neg h1, if_neg h2])
  · rw [← deltasOf_refreshed href]
    unfold recordUndo
    split
    · rfl
    · exact deltasOf_recordUndo ..
  · have hstage := stageWrites_table (updatePath gates xpage stmt.batched) t.toTableDef r new
      old.data row (recordUndo T stmt x actions).2
    have hrec := recordUndo_stmt T stmt x actions
    simp [stmtDelta, hstage, hrec]

lemma deleteRow_countInv (h : e.CountInv) (hk : e.HeapOk) (hp : PagesOk e.names e.tables)
    (hs : e.deleteRow x r = some e') : e'.CountInv := by
  obtain ⟨txn, stmt, t, old, pool, actions, hrun, -, hr, -, -, -, hw, rfl⟩ := deleteRow_spec hs
  obtain ⟨hx, hstmt, ht⟩ := running_eq_some.1 hrun
  obtain ⟨_, -, -, -, htuple⟩ := Pool.deleteRow_spec hw
  have hclaim : e.claimPage t r.pageId = some e.tables := if_pos hr
  refine h.write hk hp hp (.refl _) hx ht hclaim (fun F hF pages hnodup hmem _ => ?_)
    (fun s hs' _ => ?_) (fun _ _ => rfl) (stmtDelta_setStmt hstmt fun _ => rfl) rfl
  · rw [total_deleteRow hF hnodup hmem hw]
    omega
  · rw [htuple, if_neg]
    rintro rfl
    exact hs' hr

/-- Rolling back transactions that have not taken effect changes no count. -/
lemma net_undone {P : Pool Row} {log : Nat → List UndoAction} {X : Nat → Prop}
    {F F' : Nat → Bool} (h : HeapInv P T log) (hX : ∀ y, X y → T.active y ≠ none)
    (hF : ∀ y, X y → F y = false) (hF' : ∀ y, ¬ X y → F' y = F y) (h0 : F 0 = false)
    {t u : Tuple Row} (ht : P.tuple? r = some t) (hu : Undone X t u) : net F' u = net F t := by
  have hX0 : ¬ X 0 := fun hx => by
    have := (h.active_lt 0 (hX 0 hx)).1
    omega
  unfold net effect
  rcases hu.cases with ⟨h1, hmax', -⟩ | ⟨h1, h2, hmax', -⟩ | ⟨h1, h2, rfl⟩
  · have hmax : F t.xmax = false := by
      by_cases hz : t.xmax = 0
      · rw [hz, h0]
      · rcases h.saw r t ht hz with heq | hf
        · rw [← heq, hF _ h1]
        · exact absurd hf.2.2 (hX _ h1)
    simp [hu.xmin, hmax', hF _ h1, hmax]
  · simp [hu.xmin, hmax', hF' _ h1, hF _ h2, hF' 0 hX0, h0]
  · simp [hF' _ h1, hF' _ h2]

lemma begin_countInv (h : e.CountInv) (hk : e.HeapOk) (iso : IsolationLevel) :
    CountInv { e with txns := e.txns.begin iso } := by
  have hact : ∀ y, y ≠ e.txns.nextXid → (e.txns.begin iso).active y = e.txns.active y := fun y hy =>
    e.txns.begin_active_ne hy iso
  have hnew : ∀ name, deltasOf (e.txns.begin iso) e.txns.nextXid name = none := fun name => by
    simp [deltasOf, begin]
  have hold : ∀ y name, y ≠ e.txns.nextXid →
      deltasOf (e.txns.begin iso) y name = deltasOf e.txns y name := fun y name hy => by
    rw [deltasOf, deltasOf, hact y hy]
  have hfin : ∀ {y}, y < e.txns.nextXid →
      (finished { e with txns := e.txns.begin iso } y) = e.finished y := by
    intro y hy
    have hlt : y < (e.txns.begin iso).nextXid := Nat.lt_succ_of_lt hy
    simp [finished, TxnInner.Finished, hact y (Nat.ne_of_lt hy), hy, hlt]
  refine ⟨fun name t y ht hy => ?_, fun name t ht hc => ?_, fun y name => ?_, h.plainUnapplied⟩
  · by_cases hyn : y = e.txns.nextXid
    · subst hyn
      -- a fresh id occurs in no version
      have hzero : e.pool.total t.pages (net (· == e.txns.nextXid)) = e.pool.total t.pages fun _ =>
          0 := by
        refine total_congr fun r _ => weight_congr fun t' ht' => ?_
        have h1 := (hk.heap.xmin_lt r t' ht').2
        have h2 := hk.heap.xmax_lt r t' ht'
        have h1' : (t'.xmin == e.txns.nextXid) = false := by simp; omega
        have h2' : (t'.xmax == e.txns.nextXid) = false := by simp; omega
        simp [net, effect, h1', h2']
      show (deltasOf (e.txns.begin iso) _ name).getD 0 + stmtDelta (e.stmts _) name = _
      rw [hnew, hk.idle _ hk.heap.active_nextXid, hzero, total_zero]
      rfl
    · have hy' : e.txns.active y ≠ none := hact y hyn ▸ hy
      rw [← h.own name t y ht hy', ownDelta, ownDelta]
      rw [hold y name hyn]
  · rw [unappliedDelta]
    refine (h.known name t ht hc).trans ?_
    refine (total_congr fun r _ => weight_congr fun t' ht' => ?_).symm
    rw [net, net, effect, effect, effect, effect, hfin (hk.heap.xmin_lt r t' ht').2,
      hfin (hk.heap.xmax_lt r t' ht')]
  · by_cases hyn : y = e.txns.nextXid
    · subst hyn
      rw [hnew]
      exact fun he => by cases he
    · rw [hold y name hyn]
      exact h.plain y name

lemma deltasOf_recordRowCountDelta (hx : T.active x = some txn) {delta : Int}
    (hsent : deltasOf T x table ≠ some truncateSentinel)
    (hlo : i64Min < (deltasOf T x table).getD 0 + delta)
    (hhi : (deltasOf T x table).getD 0 + delta ≤ i64Max) (hd : i64Min < delta) (y : Nat)
    (name : String) : deltasOf (T.recordRowCountDelta x table delta) y name =
      if y = x ∧ name = table then some ((deltasOf T x table).getD 0 + delta)
      else deltasOf T y name := by
  have hx' : deltasOf T x table = txn.rowCountDeltas table := by simp [deltasOf, hx]
  rw [hx'] at hsent hlo hhi ⊢
  have hsent' : (txn.rowCountDeltas table).getD 0 ≠ truncateSentinel := by
    cases hrec : txn.rowCountDeltas table with
    | none => decide
    | some d =>
      rw [hrec] at hsent
      exact fun he => hsent (congrArg some he)
  have hd' : delta ≠ truncateSentinel := by
    show delta ≠ i64Min
    omega
  unfold recordRowCountDelta
  rw [hx]
  simp only [hd', hsent', saturatingAdd_eq (Int.le_of_lt hlo) hhi]
  unfold deltasOf
  by_cases hy : y = x
  · subst hy
    by_cases hname : name = table
    · subst hname
      simp
    · simp [hname, hx]
  · rw [set_active_ne T hy]
    simp [hy]

lemma stmtDelta_drop {stmt : Stmt} (hstmt : e.stmts x = some stmt) (y : Nat) (name : String) :
    stmtDelta (e.setStmt x none y) name =
      stmtDelta (e.stmts y) name + if y = x ∧ name = stmt.table then -stmt.delta else 0 :=
  stmtDelta_setStmt hstmt (fun _ => by simp [stmtDelta]) y name

lemma endStmt_countInv (h : e.CountInv) (hk : e.HeapOk) {misses : List Bool}
    (hok : e.CountOk (.endStmt x misses)) (hs : e.endStmt x misses = some e') : e'.CountInv := by
  obtain ⟨stmt, hstmt, rfl⟩ := endStmt_spec hs
  obtain ⟨txn, hx⟩ := hk.active hstmt
  obtain ⟨hd, hlo, hhi⟩ := hok stmt hstmt
  have hrec := deltasOf_recordUndo e.txns x (stmt.pendingUndo ++ patchUndo stmt.patches)
  obtain ⟨txn', hx'⟩ : ∃ txn',
      (e.txns.recordUndo x (stmt.pendingUndo ++ patchUndo stmt.patches)).active x = some txn' :=
    ⟨_, by rw [recordUndo_eq hx, set_active_self]⟩
  -- the recorded delta takes the place of the pending one
  have hdeltas : ∀ y name, deltasOf (endTxns e.txns x stmt) y name =
      if y = x ∧ name = stmt.table ∧ stmt.delta ≠ 0 then
        some ((deltasOf e.txns x stmt.table).getD 0 + stmt.delta)
      else deltasOf e.txns y name := by
    intro y name
    unfold endTxns
    split
    · rename_i hzero
      simp [hzero, hrec]
    · rename_i hne
      rw [deltasOf_recordRowCountDelta hx' (by rw [hrec]; exact h.plain x _)
        (by rw [hrec]; exact hlo) (by rw [hrec]; exact hhi) hd, hrec, hrec]
      simp [hne]
  refine h.steady rfl (endTxns_steady ..) rfl (fun _ _ => h.counts) (fun y name => ?_) fun y name =>
    ?_
  · show (deltasOf (endTxns e.txns x stmt) y name).getD 0 + stmtDelta (e.setStmt x none y) name = _
    rw [hdeltas, ownDelta, stmtDelta_drop hstmt]
    by_cases hy : y = x ∧ name = stmt.table
    · obtain ⟨rfl, rfl⟩ := hy
      by_cases hz : stmt.delta = 0
      · simp [hz]
      · simp [hz]
        omega
    · have hy' : ¬ (y = x ∧ name = stmt.table ∧ stmt.delta ≠ 0) := fun ⟨h1, h2, _⟩ => hy ⟨h1, h2⟩
      rw [if_neg hy', if_neg hy, add_zero]
  · show deltasOf (endTxns e.txns x stmt) y name ≠ _
    rw [hdeltas]
    split
    · intro he
      have : (deltasOf e.txns x stmt.table).getD 0 + stmt.delta = i64Min := some.inj he
      omega
    · exact h.plain y name

lemma deltasOf_remove {y : Nat} (hy : y ≠ x) (name : String) :
    deltasOf (T.remove x) y name = deltasOf T y name := by
  rw [deltasOf, deltasOf, remove_active_ne T hy]

lemma CountInv.plain_remove (h : e.CountInv) (x y : Nat) (name : String) :
    deltasOf (e.txns.remove x) y name ≠ some truncateSentinel := by
  by_cases hy : y = x
  · simp [hy, deltasOf]
  · rw [deltasOf_remove hy]
    exact h.plain y name

lemma commit_countInv (h : e.CountInv) (hk : e.HeapOk) (hs : e.commit x = some e') :
    e'.CountInv := by
  obtain ⟨txn, hx, hstmt, rfl⟩ := commit_spec hs
  have hxne : e.txns.active x ≠ none := by simp [hx]
  have hlt := hk.heap.active_lt x hxne
  refine ⟨fun name t y ht hy => ?_, fun name t ht hc => ?_, h.plain_remove x, fun ds hds => ?_⟩
  · have hne := ne_of_remove hy
    rw [← h.own name t y ht (by rw [← remove_active_ne e.txns hne]; exact hy)]
    exact congrArg (fun d => Option.getD d 0 + stmtDelta (e.stmts y) name)
      (deltasOf_remove hne name)
  · have hown := h.own name t x ht hxne
    have hknown := h.known name t ht hc
    have hxd : e.ownDelta x name = (txn.rowCountDeltas name).getD 0 := by
      simp [ownDelta, deltasOf, hx, hstmt, stmtDelta]
    have hsum : (unappliedDelta { e with
        txns := e.txns.remove x
        locks := e.releaseAll x
        unapplied := e.unapplied ++ [txn.rowCountDeltas] } name) =
        e.unappliedDelta name + (txn.rowCountDeltas name).getD 0 := by
      simp [unappliedDelta]
    rw [hsum, ← add_assoc, hknown, ← hxd, hown, ← total_add]
    refine (total_congr fun r _ => weight_congr fun t' _ => ?_).symm
    have hfin : ∀ y, effect (finished { e with
        txns := e.txns.remove x
        locks := e.releaseAll x
        unapplied := e.unapplied ++ [txn.rowCountDeltas] }) y =
        effect e.finished y + effect (· == x) y := by
      intro y
      unfold effect finished
      simp only [finished_remove_iff hlt]
      by_cases hy : y = x
      · subst hy
        have : ¬ e.txns.Finished y := fun hf => hxne hf.2.2
        simp [this]
      · simp [hy]
    rw [net, net, net, hfin, hfin]
    omega
  · rcases mem_append.1 hds with hmem | hmem
    · exact h.plainUnapplied ds hmem
    · rw [mem_singleton] at hmem
      intro name
      have := h.plain x name
      rw [deltasOf, hx] at this
      rw [hmem]
      exact this

lemma sum_map_eraseIdx {α : Type} (f : α → Int) {l : List α} {i : Nat} {a : α}
    (h : l[i]? = some a) : (l.map f).sum = f a + ((l.eraseIdx i).map f).sum := by
  induction l generalizing i with
  | nil => cases h
  | cons b l ih =>
    cases i with
    | zero =>
      cases h
      simp
    | succ i =>
      simp only [eraseIdx_cons_succ, map_cons, sum_cons]
      rw [ih h]
      omega

lemma applyDelta_unknown {d : Option Int} (hd : d ≠ some truncateSentinel) :
    applyDelta rowCountUnknown d = rowCountUnknown := by
  cases d with
  | none => rfl
  | some d =>
    have hsent : d ≠ truncateSentinel := fun he => hd (congrArg some he)
    simp [applyDelta, hsent]

lemma applyDelta_eq {count : Int} {d : Option Int} (hd : d ≠ some truncateSentinel)
    (hc : count ≠ rowCountUnknown)
    (hrange : ∀ n, d = some n → i64Min < count + n ∧ count + n ≤ i64Max) :
    applyDelta count d = count + d.getD 0 := by
  cases d with
  | none => simp [applyDelta]
  | some d =>
    have hsent : d ≠ truncateSentinel := fun he => hd (congrArg some he)
    obtain ⟨hlo, hhi⟩ := hrange d rfl
    by_cases hz : d = 0
    · simp [applyDelta, hz, truncateSentinel, i64Min]
    · simp [applyDelta, hsent, hc, saturatingAdd_eq (Int.le_of_lt hlo) hhi]

lemma applyDeltas_countInv (h : e.CountInv) {i : Nat} (hok : e.CountOk (.applyDeltas i))
    (hs : e.applyDeltas i = some e') : e'.CountInv := by
  obtain ⟨ds, -, hi, rfl⟩ := applyDeltas_spec hs
  have hds := h.plainUnapplied ds (mem_of_getElem? hi)
  refine ⟨fun name t' y ht' hy => ?_, fun name t' ht' hk => ?_, h.plain, fun ds' hds' => ?_⟩
  · obtain ⟨t, ht, rfl⟩ := map_eq_some_iff.1 ht'
    exact h.own name t y ht hy
  · obtain ⟨t, ht, rfl⟩ := map_eq_some_iff.1 ht'
    have hcount : t.rowCount ≠ rowCountUnknown := by
      intro hunk
      refine hk ?_
      rw [hunk, applyDelta_unknown (hds name)]
    have hnew := applyDelta_eq (hds name) hcount fun n hn => hok name t ds n ht hcount hi hn
    have hold := h.known name t ht hcount
    have hsum := sum_map_eraseIdx (fun d : String → Option Int => (d name).getD 0) hi
    show applyDelta t.rowCount (ds name) +
      ((e.unapplied.eraseIdx i).map fun d => (d name).getD 0).sum = e.pool.total t.pages
        (net e.finished)
    rw [← hold, unappliedDelta]
    omega
  · exact h.plainUnapplied ds' (mem_of_mem_eraseIdx hds')

lemma abort_countInv (h : e.CountInv) (hk : e.HeapOk) (hok : e.CountOk (.abort x))
    (hs : e.abort x = some e') : e'.CountInv := by
  obtain ⟨txn, pool, hx, hw, rfl⟩ := abort_spec hs
  have hxne : e.txns.active x ≠ none := by simp [hx]
  have hlt := hk.heap.active_lt x hxne
  have hrow := abort_undone hk hok hx hw
  have htotal : ∀ (F F' : Nat → Bool) (pages : List Nat), F x = false → F 0 = false →
      (∀ y, y ≠ x → F' y = F y) → pool.total pages (net F') = e.pool.total pages (net F) := by
    intro F F' pages hF h0 hF'
    refine total_congr fun r _ => ?_
    unfold weight
    cases ht : e.pool.tuple? r with
    | none => rw [(hrow r).1 ht]; rfl
    | some t =>
      obtain ⟨u, hu, hund⟩ := (hrow r).2 t ht
      rw [hu]
      exact net_undone (X := (· = x)) hk.heap (fun y hy => hy ▸ hxne)
        (fun y hy => hy ▸ hF) hF' h0 ht hund
  refine ⟨fun name t y ht hy => ?_, fun name t ht hc => ?_, h.plain_remove x, h.plainUnapplied⟩
  · have hne := ne_of_remove hy
    have hy' : e.txns.active y ≠ none := by rw [← remove_active_ne e.txns hne]; exact hy
    have hypos := (hk.heap.active_lt y hy').1
    have h0 : ((0 : Nat) == y) = false := by simp; omega
    have hxy : (x == y) = false := by simp; exact fun he => hne he.symm
    refine Eq.trans ?_ ((h.own name t y ht hy').trans
      (htotal (· == y) (· == y) t.pages hxy h0 fun _ _ => rfl).symm)
    show (deltasOf (e.txns.remove x) y name).getD 0 + stmtDelta (e.setStmt x none y) name = _
    rw [deltasOf_remove hne, setStmt_ne e hne, ownDelta]
  · refine (h.known name t ht hc).trans (htotal _ _ _ (finished_eq_false hxne)
      (finished_zero e) ?_).symm
    intro y hy
    simp only [finished, finished_remove_iff hlt, hy, or_false]

lemma truncate_countInv (h : e.CountInv) (hp : PagesOk e.names e.tables)
    (hok : e.CountOk (.truncate x table)) (hs : e.truncate x table = some e') : e'.CountInv := by
  obtain ⟨t, txn, T, S, ht, -, hT, href, rfl⟩ := truncate_spec hs
  obtain ⟨hun, hown⟩ := hok
  have hn := (hp.named table t ht).1
  refine h.congr rfl (snapshotForStatement_steady hT) rfl (fun name u hu => ?_)
    (deltasOf_refreshed href) fun _ _ => rfl
  rcases setTable_eq_some hu with ⟨rfl, rfl⟩ | ⟨-, hu'⟩
  · refine ⟨fun y hy => ?_, fun _ => ?_⟩
    · show e.ownDelta y t.name = 0
      rw [hn, hown y hy]
    · rw [hn, hun]
      rfl
  · exact h.counts hu'

/-- **The counter of a reader who knows of everything**: the answer is exact if and only if the
reader's own changes and the deltas on their way make up for what its snapshot does not know of. -/
theorem countAnswer_eq_iff (h : e.CountInv) (hk : e.HeapOk) (ht : e.tables name = some t)
    (hT : e.txns.snapshotForStatement x = some T) (hx : T.active x = some txn) :
    e.countAnswer t txn.snapshot x = e.countVisible t txn.snapshot x ↔
      t.rowCount = rowCountUnknown ∨ e.Current name t txn.snapshot x := by
  unfold countAnswer
  split
  · rename_i hunk
    exact ⟨fun _ => .inl hunk, fun _ => rfl⟩
  · rename_i hc
    have hsteady := snapshotForStatement_steady hT
    have hheap : HeapInv e.pool T e.log := hk.heap.steady hsteady hk.heap.logged
    have hvis := countVisible_eq (t := t) hheap hsteady hx
    have hxne : e.txns.active x ≠ none := by
      refine mt (hsteady.domain x).2 ?_
      simp [hx]
    have hown := h.own name t x ht hxne
    have hknown := h.known name t ht hc
    unfold Current
    constructor
    · intro he
      omega
    · intro he
      omega

lemma countStar_countInv (h : e.CountInv) (hk : e.HeapOk) (hp : PagesOk e.names e.tables)
    {exclusive : Bool} (hok : e.CountOk (.countStar x table exclusive))
    (hs : e.countStar x table exclusive = some e') : e'.CountInv := by
  obtain ⟨t, txn, T, S, ht, -, hT, href, rfl⟩ := countStar_spec hs
  have hsteady := snapshotForStatement_steady hT
  refine h.congr rfl hsteady rfl (fun name u hu => ?_) (deltasOf_refreshed href) fun _ _ => rfl
  dsimp only at hu
  split at hu
  · rename_i hcal
    obtain ⟨rfl, hunk⟩ := hcal
    rcases setTable_eq_some hu with ⟨rfl, rfl⟩ | ⟨-, hu'⟩
    · have hcur := hok t T _ ht hunk hT href.new
      have hvis := countVisible_eq (t := t) (hk.heap.steady hsteady hk.heap.logged) hsteady href.new
      have hown := h.own table t x ht (by simp [href.old])
      rw [(hp.named table t ht).1]
      refine ⟨(h.counts ht).1, fun _ => ?_⟩
      show e.countVisible t S x + e.unappliedDelta table = e.pool.total t.pages (net e.finished)
      unfold Current at hcur
      dsimp only at hvis hcur
      omega
    · exact h.counts hu'
  · exact h.counts hu

theorem CountInv.step (h : e.CountInv) (hk : e.HeapOk) (hp : PagesOk e.names e.tables) {a : Action}
    (hok : e.CountOk a) (hs : e.step a = some e') : e'.CountInv := by
  cases a with
  | begin iso =>
    cases hs
    exact begin_countInv h hk iso
  | beginStmt x table batched =>
    obtain ⟨txn, T, S, hstmt, -, hT, href, rfl⟩ := beginStmt_spec hs
    refine h.congr rfl (snapshotForStatement_steady hT) rfl (fun _ _ => h.counts)
      (deltasOf_refreshed href) fun y name => ?_
    by_cases hy : y = x
    · subst hy
      simp [hstmt, stmtDelta]
    · simp [setStmt_ne e hy]
  | acquire x id =>
    obtain ⟨-, -, rfl⟩ := acquire_spec hs
    exact h.congr rfl (.refl _) rfl (fun _ _ => h.counts) (fun _ _ => rfl) fun _ _ => rfl
  | insertRow x page row => exact insertRow_countInv h hk hp hs
  | updateRow x setCols r page xpage row => exact updateRow_countInv h hk hp hs
  | checkDelete x r =>
    obtain ⟨txn, stmt, t, old, T, S, hrun, -, -, -, hT, href, -, rfl⟩ := checkDelete_spec hs
    obtain ⟨-, hstmt, -⟩ := running_eq_some.1 hrun
    refine h.congr rfl (snapshotForStatement_steady hT) rfl (fun _ _ => h.counts)
      (deltasOf_refreshed href) fun y name => ?_
    rw [stmtDelta_setStmt hstmt (d := 0) (fun _ => by simp [stmtDelta]) y name]
    simp
  | deleteRow x r => exact deleteRow_countInv h hk hp hs
  | endStmt x misses => exact endStmt_countInv h hk hok hs
  | failStmt x =>
    obtain ⟨stmt, hstmt, rfl⟩ := failStmt_spec hs
    refine h.congr rfl (.refl _) rfl (fun _ _ => h.counts) (fun _ _ => rfl) fun y name => ?_
    simp [stmtDelta_drop hstmt, (hok stmt hstmt).2]
  | commit x => exact commit_countInv h hk hs
  | applyDeltas i => exact applyDeltas_countInv h hok hs
  | abort x => exact abort_countInv h hk hok hs
  | createIndex x table col root =>
    obtain ⟨t, c, txn, T, S, ht, -, -, -, -, -, -, hT, href, rfl⟩ := createIndex_spec hs
    refine h.congr rfl (snapshotForStatement_steady hT) rfl (fun name t' ht' => ?_)
      (deltasOf_refreshed href) fun _ _ => rfl
    rcases setTable_eq_some ht' with ⟨rfl, rfl⟩ | ⟨-, hu⟩
    · exact h.counts (t := t) (by rw [(hp.named table t ht).1]; exact ht)
    · exact h.counts hu
  | truncate x table => exact truncate_countInv h hp hok hs
  | countStar x table exclusive => exact countStar_countInv h hk hp hok hs
  | restart =>
    cases hs
    refine ⟨fun _ _ _ _ hy => absurd rfl hy, fun name t' ht' hc => ?_, fun _ _ => ?_,
      fun _ hds => ?_⟩
    · obtain ⟨t, -, rfl⟩ := map_eq_some_iff.1 ht'
      exact absurd rfl hc
    · exact fun he => by cases he
    · cases hds

end Engine

/-! ## Runs -/

def Table.Empty (t : Table) : Prop := t.pages = [] ∧ t.rowCount = 0

lemma Engine.countInv_initial (h : ∀ t ∈ tables, t.Empty) : (initial tables).CountInv := by
  refine ⟨fun _ _ _ _ hy => absurd rfl hy, fun name t ht _ => ?_, (fun _ _ he => by cases he),
    fun _ hds => by cases hds⟩
  obtain ⟨hpages, hcount⟩ := h t (mem_of_find?_eq_some ht)
  rw [hpages, hcount]
  rfl

lemma Engine.counted_of_reached (hempty : ∀ t ∈ tables, t.Empty) {e : Engine}
    (h : Reached step Engine.CountOk (initial tables) e) :
    e.HeapOk ∧ Engine.PagesOk e.names e.tables ∧ e.CountInv := by
  refine h.invariant (fun e => e.HeapOk ∧ Engine.PagesOk e.names e.tables ∧ e.CountInv) ?_ ?_
  · exact ⟨heapOk_initial tables, pagesOk_initial fun t ht => (hempty t ht).1,
      countInv_initial hempty⟩
  · rintro e a e' ⟨hk, hp, hc⟩ hok hs
    exact ⟨hk.step hok.lossless hs, hp.step hs, hc.step hk hp hok hs⟩

/-- **When `COUNT(*)` is exact.** After every run whose steps meet `CountOk`, a `SELECT COUNT(*)`
returns what a scan under its snapshot counts if and only if the counter is unknown (so that the
scan is made) or the reader's own uncommitted changes and the deltas not yet in the catalog make up
for what its snapshot does not know of. -/
theorem count_star_exact_iff {tables : List Table} (hempty : ∀ t ∈ tables, t.Empty)
    {e : Engine} (h : Reached step Engine.CountOk (initial tables) e)
    {x : Nat} {name : String} {t : Table} {T : TxnInner} {txn : Transaction}
    (ht : e.tables name = some t) (hT : e.txns.snapshotForStatement x = some T)
    (hx : T.active x = some txn) :
    e.countAnswer t txn.snapshot x = e.countVisible t txn.snapshot x ↔
      t.rowCount = rowCountUnknown ∨ e.Current name t txn.snapshot x := by
  obtain ⟨hk, -, hc⟩ := counted_of_reached hempty h
  exact countAnswer_eq_iff hc hk ht hT hx

def visits : Table := { name := "visits", columns := [{ name := "n", ty := .int64 }] }

def insertVisit : List Action :=
  [.begin .readCommitted, .beginStmt 1 "visits" false, .insertRow 1 0 [.int 7]]

lemma visits_empty : ∀ t ∈ [visits], t.Empty := by
  intro t ht
  rw [mem_singleton.1 ht]
  exact ⟨rfl, rfl⟩

def visitsReader : Engine :=
  runState step (initial [visits]) (insertVisit ++ [.begin .readCommitted])

/-- The other transaction sees no row and gets 0. -/
theorem count_star_exact_iff_reader : ∃ t T txn, visitsReader.tables "visits" = some t ∧
    visitsReader.txns.snapshotForStatement 2 = some T ∧ T.active 2 = some txn ∧
    visitsReader.countAnswer t txn.snapshot 2 = visitsReader.countVisible t txn.snapshot 2 := by
  have hreach : Reached step Engine.CountOk (initial [visits]) visitsReader :=
    reached_runState (by simp [insertVisit, Engine.CountOk]) (by decide +kernel)
  have heval : (do
      let t ← visitsReader.tables "visits"
      let T ← visitsReader.txns.snapshotForStatement 2
      let txn ← T.active 2
      pure (decide (visitsReader.ownDelta 2 "visits" + visitsReader.unappliedDelta "visits" =
        visitsReader.unseenNet t txn.snapshot 2)) : Option Bool) = some true := by decide +kernel
  simp only [Option.bind_eq_bind, Option.bind_eq_some_iff, Option.pure_def, Option.some.injEq,
    decide_eq_true_eq] at heval
  obtain ⟨t, ht, T, hT, txn, hx, hcur⟩ := heval
  exact ⟨t, T, txn, ht, hT, hx, (count_star_exact_iff visits_empty hreach ht hT hx).2 (.inr hcur)⟩

/-- What `SELECT COUNT(*)` returns to `x`, and what a scan under the same snapshot counts. -/
def Engine.countBoth (e : Engine) (x : Nat) (name : String) : Option (Int × Int) := do
  let t ← e.tables name
  let T ← e.txns.snapshotForStatement x
  let txn ← T.active x
  pure (e.countAnswer t txn.snapshot x, e.countVisible t txn.snapshot x)

/-- The inserting transaction itself gets 0 for the one row it sees. -/
theorem count_star_misses_own_insert :
    ¬ ∀ (tables : List Table) (e : Engine) (x : Nat) (name : String) (t : Table) (T : TxnInner)
      (txn : Transaction), (∀ t ∈ tables, t.Empty) →
      Reached step (fun _ _ => True) (initial tables) e → e.tables name = some t →
      e.txns.snapshotForStatement x = some T → T.active x = some txn →
      e.countAnswer t txn.snapshot x = e.countVisible t txn.snapshot x := by
  intro h
  have heval : (runState step (initial [visits]) (insertVisit ++ [.endStmt 1 []])).countBoth
      1 "visits" = some (0, 1) := by decide +kernel
  simp only [countBoth, Option.bind_eq_bind, Option.bind_eq_some_iff, Option.pure_def,
    Option.some.injEq, Prod.mk.injEq] at heval
  obtain ⟨t, ht, T, hT, txn, hx, hanswer, hvisible⟩ := heval
  have heq := h [visits] _ 1 "visits" t T txn visits_empty
    (reached_runState (by simp) (by decide +kernel)) ht hT hx
  rw [hanswer, hvisible] at heq
  exact absurd heq (by decide)

end UniDb
