import Xv6.Sync.Pipe

/-!
Who sleeps in a pipe (`pipewrite`, `piperead`, `pipeclose`, `kill`).

Readers sleep while the pipe is empty and can be written, writers while it is full and can be
read.  Each store that ends the reason is followed by a `wakeup` before the lock is released,
with one exception: a process that has filled the pipe with bytes of a longer call and then finds
that it was killed returns -1 and wakes nobody.

* `OwesReaders`, `OwesWriters`: the places with a wakeup still to come.
* `Prompt`: a step that is not the exception.
* `pipe_no_lost_wakeup`: without it nobody is left asleep.
* `pipe_loses_wakeup`: with it somebody can be.
-/

namespace Xv6.Sync

open Transition Pipe

variable {P : Type} [DecidableEq P] {s s' : Sys P Pipe Label} {a : Act P Label}

/-- The reason to sleep on `&p->nread`. -/
def Pipe.NothingToRead (p : Pipe) : Prop := p.Empty ∧ p.writeopen = true

/-- The reason to sleep on `&p->nwrite`. -/
def Pipe.NoRoom (p : Pipe) : Prop := p.Full ∧ p.readopen = true

/-- The places after a store that ends the reason to sleep on `&p->nread`. -/
def OwesReaders : Label → Prop
  | .writeFor _ i => 0 < i
  | .closeWake true => True
  | _ => False

/-- The places after a store that ends the reason to sleep on `&p->nwrite`. -/
def OwesWriters : Label → Prop
  | .readCopy _ _ => True
  | .closeWake false => True
  | _ => False

lemma pipe_signals_readers : Signals pipe nreadChan NothingToRead OwesReaders where
  call {l l'} h := by
    cases l <;> first | exact False.elim | cases h
  code x l p := by
    have hwrite : ∀ src i l,
        Pays nreadChan NothingToRead OwesReaders l p (p.writeByte x src i) := by
      intro src i l
      unfold writeByte
      split
      · split
        · trivial
        · exact fun _ => .inl rfl
      · exact fun _ => .inr (Nat.succ_pos i)
    have hread : ∀ n dst l, ¬OwesReaders l →
        Pays nreadChan NothingToRead OwesReaders l p (p.readByte n dst) := by
      intro n dst l hl
      unfold readByte
      split
      · rename_i hn
        exact fun h => absurd (h.resolve_right hl).1 hn.2
      · exact fun h => absurd h hl
    cases l with
    | writeFor src i =>
      simp only [pipe, Pipe.code]
      split
      · exact hwrite src i _
      · exact fun _ => .inl rfl
    | writeFull src i => exact hwrite src i _
    | readEmpty n =>
      simp only [pipe, Pipe.code]
      split
      · split
        · trivial
        · exact id
      · exact hread n [] _ id
    | readCopy n dst => exact hread n dst _ id
    | closeStore writable =>
      cases writable with
      | true => exact fun _ => .inr trivial
      | false => exact fun h => .inl (h.resolve_right id)
    | closeWake writable =>
      cases writable with
      | true => exact fun _ => .inl rfl
      | false => exact False.elim
    | writeSleep => exact id
    | writeAcquire => exact False.elim
    | readAcquire => exact id
    | closeAcquire => exact id
    | _ => trivial

lemma pipe_signals_writers : Signals pipe nwriteChan NoRoom OwesWriters where
  call {l l'} h := by
    cases l <;> first | exact False.elim | cases h
  code x l p := by
    have hwrite : ∀ src i l, ¬OwesWriters l →
        Pays nwriteChan NoRoom OwesWriters l p (p.writeByte x src i) := by
      intro src i l hl
      unfold writeByte
      split
      · split
        · trivial
        · exact fun h => absurd h hl
      · rename_i hfull
        exact fun h => absurd (h.resolve_right hl).1 hfull
    have hread : ∀ n dst l, Pays nwriteChan NoRoom OwesWriters l p (p.readByte n dst) := by
      intro n dst l
      unfold readByte
      split
      · exact fun _ => .inr trivial
      · exact fun _ => .inl rfl
    cases l with
    | writeFor src i =>
      simp only [pipe, Pipe.code]
      split
      · exact hwrite src i _ id
      · exact False.elim
    | writeFull src i => exact hwrite src i _ id
    | readEmpty n =>
      simp only [pipe, Pipe.code]
      split
      · split
        · trivial
        · exact id
      · exact hread n [] _
    | readCopy n dst => exact hread n dst _
    | closeStore writable =>
      cases writable with
      | true => exact fun h => .inl (h.resolve_right id)
      | false => exact fun _ => .inr trivial
    | closeWake writable =>
      cases writable with
      | true => exact False.elim
      | false => exact fun _ => .inl rfl
    | writeSleep => exact id
    | writeAcquire => exact id
    | readAcquire => exact id
    | closeAcquire => exact id
    | _ => trivial

variable {l : Label}

/-- The calls of `sleep` in the code. -/
lemma sleep_cases {x : Proc} {l' : Label} {p : Pipe} {ch : Chan}
    (h : pipe.code x l p = .sleep ch l') :
    (∃ n, ch = nreadChan ∧ l = .readEmpty n ∧ l' = .readEmpty n ∧ p.NothingToRead) ∨
      ∃ src i, ch = nwriteChan ∧ l = .writeSleep src i := by
  cases l with
  | writeFor src i | writeFull src i =>
    simp only [pipe, Pipe.code, writeByte] at h
    split_ifs at h
  | writeSleep src i =>
    cases h
    exact .inr ⟨src, i, rfl, rfl⟩
  | readEmpty n =>
    simp only [pipe, Pipe.code, readByte] at h
    split_ifs at h with hwait
    cases h
    exact .inl ⟨n, rfl, rfl, rfl, hwait⟩
  | readCopy n dst =>
    simp only [pipe, Pipe.code, readByte] at h
    split_ifs at h
  | closeStore writable | closeWake writable => cases writable <;> cases h
  | _ => cases h

/-- The calls of `wakeup` are made under the lock. -/
lemma held_of_signalled {ch : Chan} (h : Signalled pipe ch l) : Held l := by
  obtain ⟨x, l₀, p, hi⟩ := h
  have hfollows := pipe_disciplined.follows hi
  rw [← hfollows.1]
  cases l₀ with
  | out | writeAcquire | readAcquire | closeAcquire => cases hi
  | _ => trivial

/-- Inside `piperead`. -/
def InRead : Label → Prop
  | .readAcquire _ | .readEmpty _ | .readCopy _ _ | .readRelease _ _ => True
  | _ => False

/-- A step in which no process returns from `pipewrite` with a wakeup still to come: a process that
finds the pipe full directly after it has stored a byte, with more to store, is not killed; and if
the read end is closed nobody is inside `piperead`. -/
def Prompt (e : Sys P Pipe Label × Act P Label) : Prop :=
  ∀ p src i, e.2 = .run p → e.1.pc p = .code (.writeFor src i) → 0 < i → i < src.length →
    e.1.mem.Full →
    (e.1.proc p).killed = false ∧ (e.1.mem.readopen = false → ∀ q, ¬InRead (e.1.pc q).label)

omit [DecidableEq P] in
/-- A process that waits on `&p->nread` is inside `piperead`. -/
lemma inRead_of_waits (hl : Locked pipe Held s) (ha : Abed s) {q : P} (h : s.Waits nreadChan q) :
    InRead (s.pc q).label := by
  obtain ⟨x, l₀, p, hi⟩ := h.resumes hl ha
  rcases sleep_cases hi with ⟨n, -, -, hl', -⟩ | ⟨_, _, hch, -⟩
  · rw [hl']
    trivial
  · cases hch

omit [DecidableEq P] in
/-- A process that releases the lock with a wakeup still to come lets nobody down. -/
lemma quiet_of_release (hl : Locked pipe Held s) (ha : Abed s) (hok : Prompt (s, a)) {p : P}
    {l' : Label} (hrun : a = .run p) (hpc : s.pc p = .code l)
    (hi : pipe.code (s.proc p) l s.mem = .release l') (ho : OwesReaders l) :
    s.Quiet nreadChan := by
  cases l with
  | writeFor src i =>
    simp only [pipe, Pipe.code, writeByte] at hi
    split_ifs at hi with hlt hfull hend
    obtain ⟨hkilled, hread⟩ := hok p src i hrun hpc ho hlt hfull
    rw [hkilled, Bool.or_false, Bool.not_eq_true'] at hend
    exact fun q hq => hread hend q (inRead_of_waits hl ha hq)
  | closeWake writable => cases writable <;> cases hi
  | _ => exact ho.elim

/-- What every run of such steps keeps. -/
lemma settled_of_run {data : ℕ → UInt8} {proc : P → Proc}
    {tr : List (Sys P Pipe Label × Act P Label)}
    (h : Run (step pipe) (boot { data := data } (.out 0) proc) tr s) (hok : ∀ e ∈ tr, Prompt e) :
    Abed s ∧ Settled nreadChan NothingToRead OwesReaders s ∧
      Settled nwriteChan NoRoom OwesWriters s := by
  revert hok
  refine h.snoc_induction (P := fun tr s => (∀ e ∈ tr, Prompt e) → Abed s ∧
    Settled nreadChan NothingToRead OwesReaders s ∧ Settled nwriteChan NoRoom OwesWriters s) ?_ ?_
  · exact fun _ => ⟨fun _ _ h => (nomatch h.1), settled_boot .., settled_boot ..⟩
  · intro tr s a s' hrun ih hstep hok
    obtain ⟨ha, hr, hw⟩ := ih fun e he => hok e (List.mem_append_left _ he)
    obtain ⟨hl, hk, -⟩ := pipe_of_run hrun
    have ht := trans_of_step hstep
    have hprompt : Prompt (s, a) := hok _ (List.mem_append_right _ (List.mem_singleton.mpr rfl))
    refine ⟨ha.step ht, hr.step pipe_disciplined hl pipe_signals_readers ?_ ht ?_,
      hw.step pipe_disciplined hl pipe_signals_writers ?_ ht ?_⟩
    · intro p l l' _ hi
      rcases sleep_cases hi with ⟨n, -, -, -, hwait⟩ | ⟨_, _, hch, -⟩
      · exact hwait
      · cases hch
    · exact fun p l l' ha' hpc hi ho => .inr (.inr (quiet_of_release hl ha hprompt ha' hpc hi ho))
    · intro p l l' hpc hi
      rcases sleep_cases hi with ⟨n, hch, -⟩ | ⟨src, i, -, rfl⟩
      · cases hch
      · have hknown := hk p (hpc ▸ ⟨rfl, trivial⟩) (hpc ▸ trivial)
        rwa [hpc] at hknown
    · intro p l l' _ _ hi ho
      cases l with
      | readCopy n dst =>
        simp only [pipe, Pipe.code, readByte] at hi
        split_ifs at hi
      | closeWake writable => cases writable <;> cases hi
      | _ => exact ho.elim

/-- **No lost wakeup in pipes.**  In a run of such steps, when `p->lock` is free, a process that is
`SLEEPING` on `&p->nread` has the pipe empty and the write end open, and one on `&p->nwrite` has
the pipe full and the read end open. -/
theorem pipe_no_lost_wakeup {data : ℕ → UInt8} {proc : P → Proc}
    {tr : List (Sys P Pipe Label × Act P Label)}
    (h : Run (step pipe) (boot { data := data } (.out 0) proc) tr s) (hok : ∀ e ∈ tr, Prompt e)
    (hfree : s.lock .own = none) (p : P) :
    (s.Sleeps nreadChan p → s.mem.Empty ∧ s.mem.writeopen = true) ∧
    (s.Sleeps nwriteChan p → s.mem.Full ∧ s.mem.readopen = true) := by
  obtain ⟨hl, -, -⟩ := pipe_of_run h
  obtain ⟨-, hr, hw⟩ := settled_of_run h hok
  refine ⟨hr.reason_of_free hl (fun l ho => ?_) (fun _ => held_of_signalled) hfree,
    hw.reason_of_free hl (fun l ho => ?_) (fun _ => held_of_signalled) hfree⟩
  · cases l <;> trivial
  · cases l <;> trivial

/-- Process 0 finds the pipe empty and goes to sleep. -/
def readerSleeps : List (Act ℕ Label) :=
  [.call 0 (.readAcquire 1), .run 0, .run 0, .run 0, .run 0, .run 0, .ret]

/-- Process 1, which has been killed, writes a byte. -/
def oneByte : List (Act ℕ Label) :=
  [.kill 1, .call 1 (.writeAcquire [7])] ++ List.replicate 7 (.run 1)

/-- Process 0 wakes up and reads the byte. -/
def readerReads : List (Act ℕ Label) := .dispatch 0 :: List.replicate 8 (.run 0)

/-- A process at the test of the `for` loop is before the first byte or after the last. -/
def atEnds : Sys P Pipe Label × Act P Label → Bool
  | (s, .run p) =>
    match s.pc p with
    | .code (.writeFor src i) => decide (src.length ≤ i ∨ i = 0)
    | _ => true
  | _ => true

theorem pipe_no_lost_wakeup_oneByte :
    ∃ s, exec (step pipe) (boot { data := fun _ => 0 } (.out 0) fun _ => Proc.zero)
        (readerSleeps ++ oneByte ++ readerReads ++ readerSleeps) = some s ∧
      s.Sleeps nreadChan 0 ∧ s.mem.Empty ∧ s.mem.writeopen = true := by
  obtain ⟨s, hs, hfree, hsleeps⟩ :
      ∃ s, exec (step pipe) (boot { data := fun _ => 0 } (.out 0) fun _ => Proc.zero)
          (readerSleeps ++ oneByte ++ readerReads ++ readerSleeps) = some s ∧
        s.lock .own = none ∧ s.Sleeps nreadChan 0 := by
    decide +kernel
  have htr : (traceOf (step pipe) (boot { data := fun _ => 0 } (.out 0) fun _ : ℕ => Proc.zero)
      (readerSleeps ++ oneByte ++ readerReads ++ readerSleeps)).all atEnds = true := by
    decide +kernel
  refine ⟨s, hs, hsleeps, (pipe_no_lost_wakeup (run_traceOf hs) ?_ hfree 0).1 hsleeps⟩
  rintro ⟨t, a⟩ he p src i ha hpc hi hlt _
  have hstep := List.all_eq_true.mp htr _ he
  have ha : a = .run p := ha
  have hpc : t.pc p = .code (.writeFor src i) := hpc
  rw [ha] at hstep
  simp only [atEnds, hpc, decide_eq_true_eq] at hstep
  omega

/-- The killed process calls `pipewrite` with one byte more than the pipe holds: it takes the lock,
stores `PIPESIZE` bytes, and returns. -/
def killedWriter : List (Act ℕ Label) :=
  [.kill 1, .call 1 (.writeAcquire (List.replicate 513 7))] ++ List.replicate 514 (.run 1)

/-- The reader sleeps on although the pipe is full. -/
theorem pipe_loses_wakeup :
    ∃ s, exec (step pipe) (boot { data := fun _ => 0 } (.out 0) fun _ => Proc.zero)
        (readerSleeps ++ killedWriter) = some s ∧
      s.lock .own = none ∧ s.Sleeps nreadChan 0 ∧ s.mem.Full := by
  decide +kernel

end Xv6.Sync
