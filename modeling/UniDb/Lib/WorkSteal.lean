import UniDb.Lib.Run

/-!
# Workers that take units from a shared cursor

A job is a list of units, each a list of calls. Workers take the next unit off a shared cursor, make
its calls one after another and gather the results; a call that fails raises a flag that stops the
others when they look at it.

* `Job.length_le_measure`, `Job.ended_of_stuck`: every schedule ends, with all workers done.
* `Job.total`: what is handed over, what the workers hold and what is left on the cursor add up to
  the same in every state without an error (`Job.Inv`).
* `Job.agrees`: what is gathered additively is what one thread gathers (`Job.serial`), and the job
  fails if and only if one thread fails.
-/

namespace UniDb.WorkSteal

open List Nat

variable {ε A : Type}

abbrev Call (ε A : Type) := Except ε (A → A)

abbrev Work (ε A : Type) := List (Call ε A)

inductive Worker (ε A : Type) where
  | head (acc : A)
  | take (acc : A)
  | busy (acc : A) (rest : Work ε A)
  | done

structure Job (ε A : Type) where
  units : List (Work ε A)
  init : A
  /-- The flag is looked at before each call, not only before each unit. -/
  inner : Bool
  /-- A worker hands over after each unit, not at its end. -/
  eager : Bool

structure State (ε A : Type) where
  cursor : Nat
  stop : Bool
  err : Option ε
  parts : List A
  workers : List (Worker ε A)

namespace Job

variable (J : Job ε A)

def start (degree : Nat) : State ε A := ⟨0, false, none, [], .replicate degree (.head J.init)⟩

def leave (s : State ε A) (w : Nat) (acc : A) : State ε A :=
  { s with
    parts := if J.eager then s.parts else s.parts ++ [acc]
    workers := s.workers.set w .done }

/-- **One step** of the worker `w`. -/
def step (s : State ε A) (w : Nat) : Option (State ε A) :=
  s.workers[w]?.bind fun
    | .head acc =>
      some (if s.stop then J.leave s w acc else { s with workers := s.workers.set w (.take acc) })
    | .take acc =>
      let s := { s with cursor := s.cursor + 1 }
      match J.units[s.cursor - 1]? with
      | none => some (J.leave s w acc)
      | some unit => some { s with workers := s.workers.set w (.busy acc unit) }
    | .busy acc [] =>
      some (if J.eager then
          { s with parts := s.parts ++ [acc], workers := s.workers.set w (.head J.init) }
        else { s with workers := s.workers.set w (.head acc) })
    | .busy acc (call :: rest) =>
      if J.inner && s.stop then some { s with workers := s.workers.set w (.head acc) }
      else match call with
        | .ok f => some { s with workers := s.workers.set w (.busy (f acc) rest) }
        | .error e =>
          -- the loop is left at its head, where the flag is seen
          some { s with err := some e, stop := true, workers := s.workers.set w (.head acc) }
    | .done => none

/-- What a step of the worker `w` can do. -/
inductive Moved (s : State ε A) (w : Nat) : State ε A → Prop
  | stopped (acc : A) : s.workers[w]? = some (.head acc) → s.stop = true →
      Moved s w (J.leave s w acc)
  | looked (acc : A) : s.workers[w]? = some (.head acc) →
      Moved s w { s with workers := s.workers.set w (.take acc) }
  | exhausted (acc : A) : s.workers[w]? = some (.take acc) → J.units.length ≤ s.cursor →
      Moved s w (J.leave { s with cursor := s.cursor + 1 } w acc)
  | took (acc : A) (unit : Work ε A) : s.workers[w]? = some (.take acc) →
      J.units[s.cursor]? = some unit →
      Moved s w { s with cursor := s.cursor + 1, workers := s.workers.set w (.busy acc unit) }
  | published (acc : A) : s.workers[w]? = some (.busy acc []) → J.eager = true →
      Moved s w { s with parts := s.parts ++ [acc], workers := s.workers.set w (.head J.init) }
  | completed (acc : A) : s.workers[w]? = some (.busy acc []) → J.eager = false →
      Moved s w { s with workers := s.workers.set w (.head acc) }
  | abandoned (acc : A) (call : Call ε A) (rest : Work ε A) :
      s.workers[w]? = some (.busy acc (call :: rest)) → s.stop = true →
      Moved s w { s with workers := s.workers.set w (.head acc) }
  | called (acc : A) (f : A → A) (rest : Work ε A) :
      s.workers[w]? = some (.busy acc (.ok f :: rest)) →
      Moved s w { s with workers := s.workers.set w (.busy (f acc) rest) }
  | failed (acc : A) (e : ε) (rest : Work ε A) :
      s.workers[w]? = some (.busy acc (.error e :: rest)) →
      Moved s w { s with err := some e, stop := true, workers := s.workers.set w (.head acc) }

variable {J}

lemma moved_of_step {s s' : State ε A} {w : Nat} (h : J.step s w = some s') : J.Moved s w s' := by
  obtain ⟨worker, hw, h⟩ := Option.bind_eq_some_iff.1 h
  match worker, h with
  | .head acc, h =>
    cases h
    split
    · next hstop => exact .stopped acc hw hstop
    · exact .looked acc hw
  | .take acc, h =>
    simp only at h
    split at h
    · next hnone =>
      cases h
      exact .exhausted acc hw (getElem?_eq_none_iff.1 hnone)
    · next unit hunit =>
      cases h
      exact .took acc unit hw hunit
  | .busy acc [], h =>
    cases h
    split
    · next heager => exact .published acc hw heager
    · next heager => exact .completed acc hw (Bool.eq_false_iff.2 heager)
  | .busy acc (call :: rest), h =>
    simp only at h
    split at h
    · next hstop =>
      cases h
      exact .abandoned acc call rest hw (Bool.and_eq_true_iff.1 hstop).2
    · match call, h with
      | .ok f, h =>
        cases h
        exact .called acc f rest hw
      | .error e, h =>
        cases h
        exact .failed acc e rest hw
  | .done, h => cases h

def Ended (s : State ε A) : Prop := ∀ worker ∈ s.workers, worker = .done

lemma ended_of_stuck {s : State ε A} (h : ∀ w, J.step s w = none) : Ended s := by
  intro worker hworker
  obtain ⟨w, hw⟩ := getElem?_of_mem hworker
  have hnone := h w
  rw [step, hw, Option.bind_some] at hnone
  match worker, hnone with
  | .take acc, hnone =>
    simp only at hnone
    split at hnone <;> cases hnone
  | .busy acc (call :: rest), hnone =>
    simp only at hnone
    split at hnone
    · cases hnone
    · cases call <;> cases hnone
  | .done, _ => rfl

end Job

/-! ## Every schedule ends -/

variable {M : Type} {old : Worker ε A}

lemma sum_set [AddCommMonoid M] (f : Worker ε A → M) {workers : List (Worker ε A)} {w : Nat}
    (h : workers[w]? = some old) : ∃ others, (workers.map f).sum = others + f old ∧
      ∀ new, ((workers.set w new).map f).sum = others + f new := by
  induction workers generalizing w with
  | nil => exact nomatch h
  | cons x rest ih =>
    cases w with
    | zero =>
      obtain rfl : x = old := by simpa using h
      exact ⟨(rest.map f).sum, by simp [add_comm], fun new => by simp [add_comm]⟩
    | succ w =>
      obtain ⟨others, hsum, hset⟩ := ih (by simpa using h)
      refine ⟨f x + others, by simp [hsum, add_assoc], fun new => ?_⟩
      rw [set_cons_succ, map_cons, sum_cons, hset, add_assoc]

def Worker.weight : Worker ε A → Nat
  | head _ => 2
  | take _ => 1
  | busy _ rest => rest.length + 3
  | done => 0

namespace Job

variable {J : Job ε A} {s s' : State ε A} {w : Nat}

/-- The work that is left, on the cursor and with the workers. -/
def measure (J : Job ε A) (s : State ε A) : Nat :=
  ((J.units.drop s.cursor).map fun unit => unit.length + 3).sum + (s.workers.map Worker.weight).sum

lemma drop_cursor {unit : Work ε A} (h : J.units[s.cursor]? = some unit) :
    J.units.drop s.cursor = unit :: J.units.drop (s.cursor + 1) := by
  obtain ⟨hlt, rfl⟩ := List.getElem?_eq_some_iff.1 h
  exact drop_eq_getElem_cons hlt

/-- **Each step uses up work**, so no schedule goes on for ever. -/
theorem step_measure (h : J.step s w = some s') : J.measure s' < J.measure s := by
  have hset : ∀ old new : Worker ε A, s.workers[w]? = some old →
      ((s.workers.set w new).map Worker.weight).sum + old.weight =
        (s.workers.map Worker.weight).sum + new.weight := by
    intro old new hw
    obtain ⟨others, hsum, hset⟩ := sum_set Worker.weight hw
    rw [hsum, hset, add_right_comm]
  simp only [measure]
  cases moved_of_step h with
  | stopped acc hw =>
    have := hset _ .done hw
    simp only [leave, Worker.weight] at this ⊢
    omega
  | looked acc hw =>
    have := hset _ (.take acc) hw
    simp only [Worker.weight] at this ⊢
    omega
  | exhausted acc hw hlen =>
    have := hset _ .done hw
    simp only [leave, Worker.weight, drop_of_length_le hlen,
      drop_of_length_le (le_succ_of_le hlen)] at this ⊢
    omega
  | took acc unit hw hunit =>
    have := hset _ (.busy acc unit) hw
    simp only [drop_cursor hunit, map_cons, sum_cons, Worker.weight] at this ⊢
    omega
  | published acc hw =>
    have := hset _ (.head J.init) hw
    simp only [Worker.weight] at this ⊢
    omega
  | completed acc hw | abandoned acc _ _ hw | failed acc _ _ hw =>
    have := hset _ (.head acc) hw
    simp only [Worker.weight] at this ⊢
    omega
  | called acc f rest hw =>
    have := hset _ (.busy (f acc) rest) hw
    simp only [Worker.weight, length_cons] at this ⊢
    omega

theorem length_le_measure {schedule : List Nat} (h : runSteps J.step s schedule = some s') :
    schedule.length ≤ J.measure s := by
  induction schedule generalizing s with
  | nil => exact zero_le _
  | cons w rest ih =>
    obtain ⟨s1, hs, hrest⟩ := Option.bind_eq_some_iff.1 h
    exact Nat.succ_le_of_lt (Nat.lt_of_le_of_lt (ih hrest) (step_measure hs))

/-! ## What is conserved -/

variable {degree : Nat}

section
variable {M : Type} [AddCommMonoid M] (obs : A → M) (weight : Call ε A → M) (good : A → Prop)

/-- A job that is observed by `obs`: each call that succeeds adds its weight. -/
structure Additive (J : Job ε A) : Prop where
  init : obs J.init = 0 ∧ good J.init
  call : ∀ unit ∈ J.units, ∀ f, .ok f ∈ unit → ∀ acc,
    obs (f acc) = obs acc + weight (.ok f) ∧ (good acc → good (f acc))

def held : Worker ε A → M
  | .head acc | .take acc => obs acc
  | .busy acc rest => obs acc + (rest.map weight).sum
  | .done => 0

def remaining (units : List (Work ε A)) : M := (units.map fun unit => (unit.map weight).sum).sum

def total (J : Job ε A) (s : State ε A) : M :=
  (s.parts.map obs).sum + ((s.workers.map (held obs weight)).sum + remaining weight
    (J.units.drop s.cursor))

/-- A worker holds good results; between two units it holds nothing that was to be handed over. -/
def Fine (J : Job ε A) (err : Option ε) : Worker ε A → Prop
  | .head acc | .take acc => good acc ∧ (J.eager = true → err = none → obs acc = 0)
  | .busy acc rest => good acc ∧ ∃ unit ∈ J.units, ∀ call ∈ rest, call ∈ unit
  | .done => True

structure Inv (J : Job ε A) (s : State ε A) : Prop where
  stop : s.stop = true → s.err ≠ none
  parts : ∀ p ∈ s.parts, good p
  workers : ∀ worker ∈ s.workers, Fine obs good J s.err worker
  total : s.err = none → total obs weight J s = remaining weight J.units
  exhausted : s.err = none → .done ∈ s.workers → J.units.length ≤ s.cursor
  failing : ∀ e, s.err = some e → ∃ unit ∈ J.units, .error e ∈ unit

variable {obs weight good}

/-- One worker moves without an error: it keeps the total if what it hands over, holds and takes off
the cursor does. -/
lemma Inv.move {new : Worker ε A} (h : Inv obs weight good J s) (hw : s.workers[w]? = some old)
    (hworkers : s'.workers = s.workers.set w new) (hstop : s'.stop = s.stop)
    (herr : s'.err = s.err) (hnew : Fine obs good J s.err new) (hparts : ∀ p ∈ s'.parts, good p)
    (htotal : s.err = none →
      (s'.parts.map obs).sum + (held obs weight new + remaining weight (J.units.drop s'.cursor)) =
        (s.parts.map obs).sum + (held obs weight old + remaining weight (J.units.drop s.cursor)))
    (hcursor : s.cursor ≤ s'.cursor)
    (hdone : s.err = none → new = .done → J.units.length ≤ s.cursor) :
    Inv obs weight good J s' := by
  refine ⟨hstop ▸ herr ▸ h.stop, hparts, ?_, ?_, ?_, herr ▸ h.failing⟩
  · rw [hworkers, herr]
    intro worker hmem
    rcases mem_or_eq_of_mem_set hmem with hmem | rfl
    · exact h.workers worker hmem
    · exact hnew
  · rw [herr]
    intro hnone
    obtain ⟨others, hsum, hset⟩ := sum_set (held obs weight) hw
    rw [← h.total hnone, Job.total, Job.total, hworkers, hset, hsum, add_assoc, add_left_comm,
      htotal hnone, add_left_comm, add_assoc]
  · rw [herr, hworkers]
    intro hnone hmem
    rcases mem_or_eq_of_mem_set hmem with hmem | heq
    · exact Nat.le_trans (h.exhausted hnone hmem) hcursor
    · exact Nat.le_trans (hdone hnone heq.symm) hcursor

section
variable (hJ : Additive obs weight good J)

include hJ

theorem Inv.step (h : Inv obs weight good J s)
    (hstep : J.step s w = some s') : Inv obs weight good J s' := by
  have hfine : ∀ worker, s.workers[w]? = some worker → Fine obs good J s.err worker :=
    fun worker hw => h.workers worker (mem_of_getElem? hw)
  have hleave : ∀ acc, good acc → ∀ p ∈ if J.eager then s.parts else s.parts ++ [acc], good p := by
    intro acc hacc
    split
    · exact h.parts
    · exact forall_mem_append.2 ⟨h.parts, forall_mem_singleton.2 hacc⟩
  cases moved_of_step hstep with
  | stopped acc hw hs =>
    have herr := h.stop hs
    exact h.move hw rfl rfl rfl trivial (hleave acc (hfine _ hw).1) (fun hnone => absurd hnone herr)
      (Nat.le_refl _) fun hnone => absurd hnone herr
  | looked acc hw =>
    have hacc : Fine obs good J s.err (.take acc) := hfine (.head acc) hw
    exact h.move hw rfl rfl rfl hacc h.parts (fun _ => rfl) (Nat.le_refl _) fun _ => nofun
  | exhausted acc hw hlen =>
    refine h.move hw rfl rfl rfl trivial (hleave acc (hfine _ hw).1) (fun hnone => ?_) (le_succ _)
      fun _ _ => hlen
    simp only [leave, held, drop_of_length_le hlen, drop_of_length_le (le_succ_of_le hlen)]
    split
    · next heager => rw [(hfine _ hw).2 heager hnone]
    · simp [add_assoc]
  | took acc unit hw hunit =>
    refine h.move hw rfl rfl rfl ⟨(hfine _ hw).1, unit, mem_of_getElem? hunit, fun _ h => h⟩
      h.parts (fun _ => ?_) (le_succ _) fun _ => nofun
    simp only [drop_cursor hunit, remaining, held, map_cons, sum_cons, add_assoc]
  | published acc hw heager =>
    refine h.move hw rfl rfl rfl ⟨hJ.init.2, fun _ _ => hJ.init.1⟩ ?_ (fun _ => ?_) (Nat.le_refl _)
      fun _ => nofun
    · exact forall_mem_append.2 ⟨h.parts, forall_mem_singleton.2 (hfine _ hw).1⟩
    · simp [held, hJ.init.1, add_assoc]
  | completed acc hw heager =>
    exact h.move hw rfl rfl rfl ⟨(hfine _ hw).1, by simp [heager]⟩ h.parts (fun _ => by simp [held])
      (Nat.le_refl _) fun _ => nofun
  | abandoned acc call rest hw hs =>
    have herr := h.stop hs
    exact h.move hw rfl rfl rfl ⟨(hfine _ hw).1, fun _ hnone => absurd hnone herr⟩ h.parts
      (fun hnone => absurd hnone herr) (Nat.le_refl _) fun _ => nofun
  | called acc f rest hw =>
    obtain ⟨hgood, unit, hunit, hsub⟩ := hfine _ hw
    obtain ⟨hobs, hkeeps⟩ := hJ.call unit hunit f (hsub _ (.head _)) acc
    refine h.move hw rfl rfl rfl ⟨hkeeps hgood, unit, hunit, fun c hc => hsub c (.tail _ hc)⟩
      h.parts (fun _ => ?_) (Nat.le_refl _) fun _ => nofun
    simp only [held, hobs, map_cons, sum_cons, add_assoc]
  | failed acc e rest hw =>
    obtain ⟨hgood, unit, hunit, hsub⟩ := hfine _ hw
    refine ⟨nofun, h.parts, ?_, nofun, nofun, ?_⟩
    · intro worker hmem
      rcases mem_or_eq_of_mem_set hmem with hmem | rfl
      · have hother := h.workers worker hmem
        cases worker with
        | head acc | take acc => exact ⟨hother.1, fun _ => nofun⟩
        | busy acc rest => exact hother
        | done => trivial
      · exact ⟨hgood, fun _ => nofun⟩
    · rintro e' ⟨⟩
      exact ⟨unit, hunit, hsub _ (.head _)⟩

lemma inv_reached (h : Reached J.step (fun _ _ => True) (J.start degree) s) :
    Inv obs weight good J s := by
  refine h.invariant (Inv obs weight good J) ?_ fun _ _ _ hinv _ hstep => hinv.step hJ hstep
  refine ⟨nofun, nofun, ?_, ?_, ?_, nofun⟩
  · intro worker hmem
    rw [eq_of_mem_replicate hmem]
    exact ⟨hJ.init.2, fun _ _ => hJ.init.1⟩
  · simp [total, start, held, hJ.init.1]
  · exact fun _ hmem => nomatch eq_of_mem_replicate hmem

lemma sum_parts (hdegree : 0 < degree)
    (h : Reached J.step (fun _ _ => True) (J.start degree) s) (hended : Ended s)
    (herr : s.err = none) : (s.parts.map obs).sum = remaining weight J.units := by
  have hlength : s.workers.length = degree := by
    refine h.invariant (fun s => s.workers.length = degree) (by simp [start]) ?_
    intro s w s' hlen _ hstep
    cases moved_of_step hstep <;> simpa [leave] using hlen
  have hinv := inv_reached hJ h
  have hdone : .done ∈ s.workers := by
    have hpos : 0 < s.workers.length := hlength ▸ hdegree
    exact hended _ (getElem_mem hpos) ▸ getElem_mem hpos
  have hheld : (s.workers.map (held obs weight)).sum = 0 := by
    refine sum_eq_zero fun x hx => ?_
    obtain ⟨worker, hmem, rfl⟩ := mem_map.1 hx
    rw [hended worker hmem]
    rfl
  have htotal := hinv.total herr
  rw [total, hheld, drop_of_length_le (hinv.exhausted herr hdone)] at htotal
  simpa [remaining] using htotal

end

end

/-! ## Against one thread -/

/-- One thread makes the calls of all units in order. -/
def serial (J : Job ε A) : Except ε A :=
  J.units.flatten.foldlM (fun acc call => call.map fun f => f acc) J.init

def result (gather : List A → A) (s : State ε A) : Except ε A :=
  match s.err with
  | some e => .error e
  | none => .ok (gather s.parts)

/-- **A job agrees with one thread**: each of its schedules ends, and then it returns the `same` as
one thread, or fails if one thread fails. -/
def Agrees (J : Job ε A) (degree : Nat) (gather : List A → A) (same : A → A → Prop) : Prop :=
  (∀ schedule s, runSteps J.step (J.start degree) schedule = some s →
    schedule.length ≤ J.measure (J.start degree)) ∧
  ∀ s, Reached J.step (fun _ _ => True) (J.start degree) s → (∀ w, J.step s w = none) → Ended s ∧
    match J.serial with
    | .ok acc => ∃ v, result gather s = .ok v ∧ same v acc
    | .error _ => ∃ e, result gather s = .error e

/-- The weight of a call by what it gives to an empty result. -/
def gain {M : Type} [AddCommMonoid M] (obs : A → M) (init : A) : Call ε A → M
  | .ok f => obs (f init)
  | .error _ => 0

lemma serial_calls [AddCommMonoid M] {obs : A → M} {good : A → Prop} {init : A}
    {calls : Work ε A} (hcall : ∀ f, .ok f ∈ calls → ∀ acc,
      obs (f acc) = obs acc + obs (f init) ∧ (good acc → good (f acc))) {acc : A}
    (hacc : good acc) :
    (∃ final, calls.foldlM (fun acc call => call.map fun f => f acc) acc = .ok final ∧ good final ∧
      (∀ e, .error e ∉ calls) ∧ obs final = obs acc + (calls.map (gain obs init)).sum) ∨
    ∃ e, calls.foldlM (fun acc call => call.map fun f => f acc) acc = .error e ∧
        .error e ∈ calls := by
  induction calls generalizing acc with
  | nil => exact .inl ⟨acc, rfl, hacc, by simp, by simp⟩
  | cons call calls ih =>
    cases call with
    | error e => exact .inr ⟨e, rfl, .head _⟩
    | ok f =>
      obtain ⟨hobs, hkeeps⟩ := hcall f (.head _) acc
      refine (ih (fun g hg => hcall g (.tail _ hg)) (hkeeps hacc)).imp ?_ ?_
      · rintro ⟨final, hfinal, hgood, hok, hsum⟩
        refine ⟨final, hfinal, hgood, by simpa using hok, ?_⟩
        rw [hsum, hobs, add_assoc]
        rfl
      · rintro ⟨e, herr, hmem⟩
        exact ⟨e, herr, .tail _ hmem⟩

lemma err_iff (hdegree : 0 < degree) (h : Reached J.step (fun _ _ => True) (J.start degree) s)
    (hended : Ended s) : s.err = none ↔ ∀ unit ∈ J.units, ∀ e, .error e ∉ unit := by
  -- failing calls are counted, the others count nothing
  have hJ : Additive (fun _ => 0) (fun c : Call ε A => if c.isOk then 0 else 1) (fun _ => True) J :=
    ⟨⟨rfl, trivial⟩, fun _ _ f _ _ => ⟨rfl, fun h => h⟩⟩
  constructor
  · intro herr unit hunit e he
    have hsum := sum_parts hJ hdegree h hended herr
    rw [sum_eq_zero fun x hx => by obtain ⟨_, _, rfl⟩ := mem_map.1 hx; rfl] at hsum
    have hzero := List.sum_eq_zero_iff_forall_eq_nat.1 hsum.symm _ (mem_map_of_mem hunit)
    exact absurd (List.sum_eq_zero_iff_forall_eq_nat.1 hzero _ (mem_map_of_mem he))
      (by simp [Except.toBool])
  · intro hok
    cases herr : s.err with
    | none => rfl
    | some e =>
      obtain ⟨unit, hunit, hmem⟩ := (inv_reached hJ h).failing e herr
      exact absurd hmem (hok unit hunit e)

theorem agrees [AddCommMonoid M] {gather : List A → A} {same : A → A → Prop} (obs : A → M)
    (good : A → Prop) (hdegree : 0 < degree) (hinit : obs J.init = 0 ∧ good J.init)
    (hcall : ∀ unit ∈ J.units, ∀ f, .ok f ∈ unit → ∀ acc,
      obs (f acc) = obs acc + obs (f J.init) ∧ (good acc → good (f acc)))
    (hgather : ∀ parts, (∀ p ∈ parts, good p) →
      obs (gather parts) = (parts.map obs).sum ∧ good (gather parts))
    (hsame : ∀ v acc, good v → good acc → obs v = obs acc → same v acc) :
    J.Agrees degree gather same := by
  refine ⟨fun schedule s h => length_le_measure h, fun s h hstuck => ⟨ended_of_stuck hstuck, ?_⟩⟩
  have hJ : Additive obs (gain obs J.init) good J := ⟨hinit, hcall⟩
  have herr := err_iff hdegree h (ended_of_stuck hstuck)
  have hcalls : ∀ f, .ok f ∈ J.units.flatten → ∀ acc,
      obs (f acc) = obs acc + obs (f J.init) ∧ (good acc → good (f acc)) := by
    intro f hf
    obtain ⟨unit, hunit, hmem⟩ := mem_flatten.1 hf
    exact hcall unit hunit f hmem
  rcases serial_calls hcalls hinit.2 with ⟨final, hfinal, hgood, hok, hobs⟩ | ⟨e, hfinal, hmem⟩
  · have hnone : s.err = none :=
      herr.2 fun unit hunit e he => hok e (mem_flatten.2 ⟨unit, hunit, he⟩)
    obtain ⟨hgathered, hgoodv⟩ := hgather s.parts (inv_reached hJ h).parts
    rw [serial, hfinal]
    refine ⟨gather s.parts, by rw [result, hnone], hsame _ _ hgoodv hgood ?_⟩
    rw [hgathered, sum_parts hJ hdegree h (ended_of_stuck hstuck) hnone, hobs, hinit.1, zero_add,
      map_flatten, sum_flatten, map_map]
    rfl
  · obtain ⟨unit, hunit, he⟩ := mem_flatten.1 hmem
    have hsome : s.err ≠ none := fun hnone => herr.1 hnone unit hunit e he
    obtain ⟨e', he'⟩ := Option.ne_none_iff_exists'.1 hsome
    rw [serial, hfinal]
    exact ⟨e', by rw [result, he']⟩

end Job

end UniDb.WorkSteal
