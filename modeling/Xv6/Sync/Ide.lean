import Xv6.Sync.Monitor
import Xv6.Fs.Block
import Xv6.Transition.Chain

/-!
The queue of the disk (`ide.c`).

The code of `iderw`, `ideintr` and `idestart`, cut where a process can be overtaken, and the disk
controller, which works on its own: it has at most one command, carries it out at some time and
then raises one interrupt.  It signals no error, so `idewait` returns 0 as soon as there is no
command.  A process that panics makes no further step.

The caller of `iderw` has locked its buffer.  A locked buffer belongs to its process, which may
change it (`edit`) as long as it is not inside `iderw`.  For that reason the tests at the head of
`iderw` are made here after `acquire(&idelock)` and not before it.

* `ide`, `ideStep`: the code, and the system with the controller.
* `Move`, `Way`: all that a step does to the memory and to the places of the processes.
-/

namespace Xv6.Sync

open Transition Xv6.Fs Function

namespace Ide

abbrev SECTOR_SIZE : ℕ := 512

/-- `struct buf`, without the lock and the links. -/
structure Buf where
  valid : Bool
  dirty : Bool
  dev : ℕ
  blockno : ℕ
  data : Block

/-- A command of the controller; the drive is the low bit of the device. -/
inductive Command where
  | read (drive sector : ℕ)
  | write (drive sector : ℕ) (data : Block)

/-- `sector_per_block` -/
def sectorPerBlock : ℕ := 4 * NWORDS / SECTOR_SIZE

namespace Buf

variable (x : Buf)

/-- `(b->flags & (B_VALID|B_DIRTY)) == B_VALID` -/
def Done : Prop := x.valid = true ∧ x.dirty = false

instance : Decidable x.Done := inferInstanceAs (Decidable (_ ∧ _))

/-- The command that `idestart` gives for a buffer. -/
def command : Command :=
  if x.dirty then .write (x.dev % 2) (x.blockno * sectorPerBlock) x.data
  else .read (x.dev % 2) (x.blockno * sectorPerBlock)

end Buf

/-- The memory under `idelock`, and the controller. -/
structure Mem (P B : Type) where
  buf : B → Buf
  qnext : B → Option B
  idequeue : Option B := none
  /-- The process that holds `b->lock`. -/
  owner : B → Option P
  /-- The sectors of the drives. -/
  disk : ℕ → ℕ → Block
  /-- The command that is being carried out. -/
  cmd : Option Command := none
  /-- What `insl` reads. -/
  latch : Block
  /-- The interrupt is raised. -/
  irq : Bool := false

/-- Where a process is.  `pp` is `&idequeue` or the address of a link. -/
inductive Label (B : Type) where
  | out
  | rwAcquire (b : B)
  | rwCheck (b : B)
  | rwScan (b : B) (pp : Option B)
  | rwStart (b : B)
  | rwWait (b : B)
  | intrAcquire
  | intrPop
  | intrWake (b : B)
  | intrStart
  | intrRelease
  deriving DecidableEq

variable {P B : Type} [DecidableEq B]

namespace Mem

variable (m : Mem P B)

/-- `*pp` -/
def next : Option B → Option B
  | none => m.idequeue
  | some x => m.qnext x

/-- `*pp = b` -/
def link (pp : Option B) (b : B) : Mem P B :=
  match pp with
  | none => { m with idequeue := some b }
  | some x => { m with qnext := update m.qnext x (some b) }

/-- `idestart`, when the controller is ready. -/
def start (b : B) : Mem P B := { m with cmd := some (m.buf b).command }

/-- The first buffer of the queue is taken off, gets its data if it was to be read, and its flags
are changed. -/
def pop (b : B) : Mem P B :=
  let x := m.buf b
  { m with
    idequeue := m.qnext b
    buf := update m.buf b
      { x with valid := true, dirty := false, data := if x.dirty then x.data else m.latch } }

/-- The controller carries out a command. -/
def complete (c : Command) : Mem P B :=
  match c with
  | .read d n => { m with latch := m.disk d n, cmd := none, irq := true }
  | .write d n x =>
    { m with disk := update m.disk d (update (m.disk d) n x),
             cmd := none, irq := true }

end Mem

/-- `idestart`; it panics for a block that is not there, and waits in `idewait`. -/
def idestart (m : Mem P B) (b : B) (l : Label B) : Instr (Mem P B) (Label B) :=
  if FSSIZE ≤ (m.buf b).blockno then .stay
  else if m.cmd.isSome then .stay
  else .store (m.start b) l

variable (chan : B → Chan) (havedisk1 : Bool)

def code (_ : Proc) : Label B → Mem P B → Instr (Mem P B) (Label B)
  | .out, _ => .stay
  | .rwAcquire b, _ => .acquire (.rwCheck b)
  | .rwCheck b, m =>
    -- `iderw: nothing to do`, `iderw: ide disk 1 not present`
    if (m.buf b).Done ∨ (m.buf b).dev ≠ 0 ∧ havedisk1 = false then .stay
    else .store { m with qnext := update m.qnext b none } (.rwScan b none)
  | .rwScan b pp, m =>
    match m.next pp with
    | some x => .store m (.rwScan b (some x))
    | none => .store (m.link pp b) (.rwStart b)
  | .rwStart b, m =>
    if m.idequeue = some b then idestart m b (.rwWait b) else .store m (.rwWait b)
  | .rwWait b, m => if (m.buf b).Done then .release .out else .sleep (chan b) (.rwWait b)
  | .intrAcquire, _ => .acquire .intrPop
  | .intrPop, m =>
    match m.idequeue with
    | none => .release .out
    | some b => .store (m.pop b) (.intrWake b)
  | .intrWake b, _ => .wakeup (chan b) .intrStart
  | .intrStart, m =>
    match m.idequeue with
    | none => .release .out
    | some b => idestart m b .intrRelease
  | .intrRelease, _ => .release .out

def calls : Label B → Label B → Bool
  | .out, .rwAcquire _ | .out, .intrAcquire => true
  | _, _ => false

/-- The places under `idelock`. -/
def Held : Label B → Prop
  | .out | .rwAcquire _ | .intrAcquire => False
  | _ => True

/-- The buffer of the call of `iderw` that a process is in. -/
def Label.buf? : Label B → Option B
  | .rwAcquire b | .rwCheck b | .rwScan b _ | .rwStart b | .rwWait b => some b
  | _ => none

/-- The sector that a command is for. -/
def Mem.sector (m : Mem P B) : Command → Block
  | .read d n | .write d n _ => m.disk d n

/-- What happens to the queue: a buffer is appended or taken off, or the command of its first
buffer has been carried out and the sector now holds `x`. -/
inductive QueueEvent (B : Type) where
  | append (b : B)
  | pop (b : B)
  | done (b : Option B) (c : Command) (x : Block)

/-- What happens to the queue when a process at a place goes on. -/
def change : Label B → Mem P B → Option (QueueEvent B)
  | .rwScan b pp, m => if m.next pp = none then some (.append b) else none
  | .intrPop, m => m.idequeue.map .pop
  | _, _ => none

/-- The actions: a step of a process, a process that locks, unlocks or changes a buffer, or the
controller that carries out its command. -/
inductive IdeAct (P B : Type) where
  | sync (a : Act P (Label B))
  | lock (p : P) (b : B)
  | unlock (p : P) (b : B)
  | edit (p : P) (b : B) (x : Buf)
  | complete

end Ide

open Ide

variable {P B : Type} [DecidableEq B]

/-- The processes that use the disk, and its interrupts. -/
def ide (P : Type) (chan : B → Chan) (havedisk1 : Bool) : Component (Mem P B) (Label B) where
  lk := .own
  code := Ide.code chan havedisk1
  calls := Ide.calls

variable {chan : B → Chan} {havedisk1 : Bool}

lemma ide_disciplined : Disciplined (ide P chan havedisk1) Held where
  call {l l'} h := by
    cases l <;> cases l' <;> first | exact ⟨id, id⟩ | cases h
  code x l m := by
    have hstart : ∀ {b l l'}, Held l → Held l' → Follows .own Held l (idestart m b l') := by
      intro b l l' hl hl'
      unfold idestart
      split
      · trivial
      · split
        · trivial
        · exact ⟨hl, hl'⟩
    cases l with
    | out => trivial
    | rwAcquire | intrAcquire => exact ⟨id, trivial⟩
    | rwCheck b =>
      simp only [ide, Ide.code]
      split
      · trivial
      · exact ⟨trivial, trivial⟩
    | rwScan b pp =>
      simp only [ide, Ide.code]
      split <;> exact ⟨trivial, trivial⟩
    | rwStart b =>
      simp only [ide, Ide.code]
      split
      · exact hstart trivial trivial
      · exact ⟨trivial, trivial⟩
    | rwWait b | intrPop =>
      simp only [ide, Ide.code]
      split
      · exact ⟨trivial, id⟩
      · exact ⟨trivial, trivial⟩
    | intrWake => exact ⟨Iff.rfl, nofun⟩
    | intrStart =>
      simp only [ide, Ide.code]
      split
      · exact ⟨trivial, id⟩
      · exact hstart trivial trivial
    | intrRelease => exact ⟨trivial, id⟩

variable [DecidableEq P]

/-- **The system**: a process calls `iderw` with a buffer it has locked, and an interrupt that is
raised makes somebody call `ideintr`. -/
def ideStep (chan : B → Chan) (havedisk1 : Bool) (s : Sys P (Mem P B) (Label B)) :
    IdeAct P B → Option (Sys P (Mem P B) (Label B))
  | .sync (.call p (.rwAcquire b)) =>
    if s.mem.owner b = some p then step (ide P chan havedisk1) s (.call p (.rwAcquire b)) else none
  | .sync (.call p .intrAcquire) =>
    if s.mem.irq then
      step (ide P chan havedisk1) { s with mem := { s.mem with irq := false } }
        (.call p .intrAcquire)
    else none
  | .sync a => step (ide P chan havedisk1) s a
  | .lock p b =>
    if s.pc p = .code .out ∧ s.mem.owner b = none then
      some { s with mem := { s.mem with owner := update s.mem.owner b (some p) } }
    else none
  | .unlock p b =>
    if s.pc p = .code .out ∧ s.mem.owner b = some p then
      some { s with mem := { s.mem with owner := update s.mem.owner b none } }
    else none
  | .edit p b x =>
    if s.pc p = .code .out ∧ s.mem.owner b = some p then
      some { s with mem := { s.mem with buf := update s.mem.buf b x } }
    else none
  | .complete => s.mem.cmd.map fun c => { s with mem := s.mem.complete c }

/-! ### All that a step can do -/

/-- What a process does to the memory when it goes on to another place. -/
inductive Move (m : Mem P B) : Label B → Mem P B → Label B → Prop where
  | rwAcquire {b} : Move m (.rwAcquire b) m (.rwCheck b)
  | check {b} : ¬(m.buf b).Done →
      Move m (.rwCheck b) { m with qnext := update m.qnext b none } (.rwScan b none)
  | scan {b pp x} : m.next pp = some x → Move m (.rwScan b pp) m (.rwScan b (some x))
  | link {b pp} : m.next pp = none → Move m (.rwScan b pp) (m.link pp b) (.rwStart b)
  | start {b} : m.idequeue = some b → Move m (.rwStart b) (m.start b) (.rwWait b)
  | wait {b} : m.idequeue ≠ some b → Move m (.rwStart b) m (.rwWait b)
  | done {b} : (m.buf b).Done → Move m (.rwWait b) m .out
  | intrAcquire : Move m .intrAcquire m .intrPop
  | spurious : m.idequeue = none → Move m .intrPop m .out
  | pop {b} : m.idequeue = some b → Move m .intrPop (m.pop b) (.intrWake b)
  | wake {b} : Move m (.intrWake b) m .intrStart
  | restart {b} : m.idequeue = some b → Move m .intrStart (m.start b) .intrRelease
  | last : m.idequeue = none → Move m .intrStart m .out
  | release : Move m .intrRelease m .out

/-- What a step does to the memory and to the places, and what happens to the queue. -/
inductive Way (m : Mem P B) (lab : P → Label B) :
    IdeAct P B → Option (QueueEvent B) → Mem P B → (P → Label B) → Prop where
  | move {p m' l'} : Move m (lab p) m' l' →
      Way m lab (.sync (.run p)) (change (lab p) m) m' (update lab p l')
  | request {p b} : lab p = .out → m.owner b = some p →
      Way m lab (.sync (.call p (.rwAcquire b))) none m (update lab p (.rwAcquire b))
  | interrupt {p} : lab p = .out → m.irq = true →
      Way m lab (.sync (.call p .intrAcquire)) none { m with irq := false }
        (update lab p .intrAcquire)
  | lock {p b} : lab p = .out → m.owner b = none →
      Way m lab (.lock p b) none { m with owner := update m.owner b (some p) } lab
  | unlock {p b} : lab p = .out → m.owner b = some p →
      Way m lab (.unlock p b) none { m with owner := update m.owner b none } lab
  | edit {p b x} : lab p = .out → m.owner b = some p →
      Way m lab (.edit p b x) none { m with buf := update m.buf b x } lab
  | complete {c} : m.cmd = some c →
      Way m lab .complete (some (.done m.idequeue c ((m.complete c).sector c))) (m.complete c) lab
  | quiet {a} : (∀ p l, a ≠ .call p l) → Way m lab (.sync a) none m lab

variable {l : Label B}

omit [DecidableEq P] in
lemma move_of_store {x : Proc} {l' : Label B} {m m' : Mem P B}
    (h : (ide P chan havedisk1).code x l m = .store m' l') : Move m l m' l' := by
  have hstart : ∀ {b l₁}, idestart m b l₁ = .store m' l' → m' = m.start b ∧ l' = l₁ := by
    intro b l₁ hi
    unfold idestart at hi
    split at hi
    · cases hi
    · split at hi
      · cases hi
      · cases hi
        exact ⟨rfl, rfl⟩
  cases l with
  | rwCheck b =>
    simp only [ide, Ide.code] at h
    split at h
    · cases h
    · rename_i hcheck
      cases h
      exact .check fun hd => hcheck (.inl hd)
  | rwScan b pp =>
    simp only [ide, Ide.code] at h
    split at h
    · rename_i x hx
      cases h
      exact .scan hx
    · rename_i hx
      cases h
      exact .link hx
  | rwStart b =>
    simp only [ide, Ide.code] at h
    split at h
    · rename_i hb
      obtain ⟨rfl, rfl⟩ := hstart h
      exact .start hb
    · rename_i hb
      cases h
      exact .wait hb
  | rwWait b =>
    simp only [ide, Ide.code] at h
    split at h <;> cases h
  | intrPop =>
    simp only [ide, Ide.code] at h
    split at h
    · cases h
    · rename_i b hb
      cases h
      exact .pop hb
  | intrStart =>
    simp only [ide, Ide.code] at h
    split at h
    · cases h
    · rename_i b hb
      obtain ⟨rfl, rfl⟩ := hstart h
      exact .restart hb
  | _ => cases h

omit [DecidableEq P] in
/-- An operation that stores nothing moves to another place, or sleeps. -/
lemma move_of_next {x : Proc} {l' : Label B} {m : Mem P B}
    (h : ((ide P chan havedisk1).code x l m).next = some l') :
    Move m l m l' ∨ ∃ b, l = .rwWait b ∧ l' = .rwWait b := by
  have hstart : ∀ {b l₁}, (idestart m b l₁).next ≠ some l' := by
    intro b l₁ hi
    unfold idestart at hi
    split at hi
    · cases hi
    · split at hi <;> cases hi
  cases l with
  | out => cases h
  | rwAcquire b =>
    cases h
    exact .inl .rwAcquire
  | rwCheck b | rwScan b pp =>
    simp only [ide, Ide.code] at h
    split at h <;> cases h
  | rwStart b =>
    simp only [ide, Ide.code] at h
    split at h
    · exact absurd h hstart
    · cases h
  | rwWait b =>
    simp only [ide, Ide.code] at h
    split at h
    · rename_i hd
      cases h
      exact .inl (.done hd)
    · cases h
      exact .inr ⟨b, rfl, rfl⟩
  | intrAcquire =>
    cases h
    exact .inl .intrAcquire
  | intrPop =>
    simp only [ide, Ide.code] at h
    split at h
    · rename_i hq
      cases h
      exact .inl (.spurious hq)
    · cases h
  | intrWake b =>
    cases h
    exact .inl .wake
  | intrStart =>
    simp only [ide, Ide.code] at h
    split at h
    · rename_i hq
      cases h
      exact .inl (.last hq)
    · exact absurd h hstart
  | intrRelease =>
    cases h
    exact .inl .release

variable {s s' : Sys P (Mem P B) (Label B)}

omit [DecidableEq B] [DecidableEq P] in
lemma Locked.of_mem {c : Component (Mem P B) (Label B)} (h : Locked c Held s) (m : Mem P B) :
    Locked c Held { s with mem := m } := ⟨h.holder, h.returns⟩

/-- What happens to the queue in a step. -/
def queueEvent : Sys P (Mem P B) (Label B) × IdeAct P B → Option (QueueEvent B)
  | (s, .sync (.run p)) =>
    match s.pc p with
    | .code l => change l s.mem
    | _ => none
  | (s, .complete) =>
    s.mem.cmd.map fun c => .done s.mem.idequeue c ((s.mem.complete c).sector c)
  | _ => none

lemma way_of_trans {a : Act P (Label B)} (ht : Trans (ide P chan havedisk1) s a s')
    (ha : ∀ p l, a ≠ .call p l) :
    Way s.mem s.label (.sync a) (queueEvent (s, .sync a)) s'.mem s'.label := by
  rcases ht.label_cases with ⟨p, l, m, l', rfl, hpc, hi, hm, hlab⟩ | ⟨p, l, l', rfl, -⟩ |
    ⟨p, l, l', rfl, hpc, hi, hm, hlab⟩ | ⟨hpc, -, hm, hlab⟩
  · have hlabel : s.label p = l := congrArg Pc.label hpc
    have hevent : queueEvent (s, .sync (.run p)) = change (s.label p) s.mem := by
      simp only [queueEvent, hpc, hlabel]
    rw [hm, hlab, hevent]
    refine .move ?_
    rw [hlabel]
    exact move_of_store hi
  · exact absurd rfl (ha p l')
  · have hlabel : s.label p = l := congrArg Pc.label hpc
    rw [hm, hlab]
    rcases move_of_next hi with hmove | ⟨b, rfl, rfl⟩
    · have hevent : queueEvent (s, .sync (.run p)) = change (s.label p) s.mem := by
        simp only [queueEvent, hpc, hlabel]
      rw [hevent]
      refine .move ?_
      rwa [hlabel]
    · have hevent : queueEvent (s, .sync (.run p)) = none := by
        simp only [queueEvent, hpc, change]
      rw [hevent, ← hlabel, update_eq_self]
      exact .quiet ha
  · have hevent : queueEvent (s, .sync a) = none := by
      cases a with
      | run p =>
        cases hp : s.pc p with
        | code l => exact absurd hp (hpc p l rfl)
        | _ => simp only [queueEvent, hp]
      | _ => rfl
    rw [hm, hlab, hevent]
    exact .quiet ha

/-- Every step is one of the ways. -/
theorem way_of_step {a : IdeAct P B} (h : ideStep chan havedisk1 s a = some s') :
    Way s.mem s.label a (queueEvent (s, a)) s'.mem s'.label := by
  have hcall : ∀ {s₁ : Sys P (Mem P B) (Label B)} {p l},
      step (ide P chan havedisk1) s₁ (.call p l) = some s' →
      s₁.label p = .out ∧ s'.mem = s₁.mem ∧ s'.label = update s₁.label p l := by
    intro s₁ p l hstep
    cases trans_of_step hstep with
    | @call _ l₀ _ hpc hl =>
      refine ⟨?_, rfl, Sys.label_goto ..⟩
      rw [Sys.label, hpc]
      cases l₀ <;> cases l <;> first | rfl | cases hl
  have hout : ∀ {p}, s.pc p = .code .out → s.label p = .out := by
    intro p hpc
    rw [Sys.label, hpc]
    rfl
  cases a with
  | sync a =>
    cases a with
    | call p l =>
      cases l with
      | rwAcquire b =>
        simp only [ideStep, Option.ite_none_right_eq_some] at h
        obtain ⟨howner, h⟩ := h
        obtain ⟨hp, hm, hlab⟩ := hcall h
        rw [hm, hlab]
        exact .request hp howner
      | intrAcquire =>
        simp only [ideStep, Option.ite_none_right_eq_some] at h
        obtain ⟨hirq, h⟩ := h
        obtain ⟨hp, hm, hlab⟩ := hcall h
        rw [hm, hlab]
        exact .interrupt hp hirq
      | _ =>
        have hstep : step (ide P chan havedisk1) s (.call p _) = some s' := h
        cases trans_of_step hstep with
        | @call _ l₀ _ hpc hl => cases l₀ <;> cases hl
    | run p | dispatch p | ret | kill p =>
      simp only [ideStep] at h
      refine way_of_trans (trans_of_step h) fun _ _ ha => ?_
      cases ha
  | lock p b =>
    simp only [ideStep, Option.ite_none_right_eq_some, Option.some.injEq] at h
    obtain ⟨⟨hpc, hb⟩, rfl⟩ := h
    exact .lock (hout hpc) hb
  | unlock p b =>
    simp only [ideStep, Option.ite_none_right_eq_some, Option.some.injEq] at h
    obtain ⟨⟨hpc, hb⟩, rfl⟩ := h
    exact .unlock (hout hpc) hb
  | edit p b x =>
    simp only [ideStep, Option.ite_none_right_eq_some, Option.some.injEq] at h
    obtain ⟨⟨hpc, hb⟩, rfl⟩ := h
    exact .edit (hout hpc) hb
  | complete =>
    simp only [ideStep, Option.map_eq_some_iff] at h
    obtain ⟨c, hc, rfl⟩ := h
    have hevent : queueEvent (s, .complete)
        = some (.done s.mem.idequeue c ((s.mem.complete c).sector c)) := by
      rw [queueEvent, hc]
      rfl
    rw [hevent]
    exact .complete hc

/-! ### The lock -/

/-- The places at which a process has the lock, wherever it is inside a call of `wakeup`. -/
def Critical : Label B → Prop
  | .rwCheck _ | .rwScan _ _ | .rwStart _ | .intrPop | .intrWake _ | .intrStart | .intrRelease =>
    True
  | _ => False

omit [DecidableEq P] in
lemma not_critical_of_resumes {ch : Chan} (h : Resumes (ide P chan havedisk1) ch l) :
    ¬Critical l := by
  obtain ⟨x, l₀, m, hi⟩ := h
  have hstart : ∀ {b l₁}, idestart m b l₁ ≠ .sleep ch l := by
    intro b l₁ hi
    unfold idestart at hi
    split at hi
    · cases hi
    · split at hi <;> cases hi
  cases l₀ with
  | rwWait b =>
    simp only [ide, Ide.code] at hi
    split at hi
    · cases hi
    · cases hi
      exact id
  | rwCheck b | rwScan b pp | intrPop =>
    simp only [ide, Ide.code] at hi
    split at hi <;> cases hi
  | rwStart b =>
    simp only [ide, Ide.code] at hi
    split at hi
    · exact absurd hi hstart
    · cases hi
  | intrStart =>
    simp only [ide, Ide.code] at hi
    split at hi
    · cases hi
    · exact absurd hi hstart
  | _ => cases hi

omit [DecidableEq P] in
lemma Locked.holds_of_critical (hl : Locked (ide P chan havedisk1) Held s) {p : P}
    (h : Critical (s.label p)) : Holds (ide P chan havedisk1) Held .own (s.pc p) := by
  have hheld : ∀ {l : Label B}, Critical l → Held l := by
    intro l hc
    cases l <;> trivial
  have hret := hl.returns p
  rw [Sys.label] at h
  cases hpc : s.pc p with
  | code l | wakeAcquire ch l =>
    rw [hpc] at h
    exact ⟨rfl, hheld h⟩
  | wake ch l | wakeRelease ch l =>
    rw [hpc] at h
    exact .inl ⟨rfl, hheld h⟩
  | sleepAcquire ch l => exact rfl
  | sleepRelease ch l => exact .inl rfl
  | sleepStore ch l | asleep ch l =>
    rw [hpc] at h hret
    exact absurd h (not_critical_of_resumes hret)
  | woken l =>
    rw [hpc] at h hret
    obtain ⟨ch, hret⟩ := hret
    exact absurd h (not_critical_of_resumes hret)
  | reacquire l =>
    rw [hpc] at h hret
    obtain ⟨-, ch, hret⟩ := hret
    exact absurd h (not_critical_of_resumes hret)

omit [DecidableEq P] in
/-- Two processes are not at such places. -/
lemma Locked.eq_of_critical (hl : Locked (ide P chan havedisk1) Held s) {p q : P}
    (hp : Critical (s.label p)) (hq : Critical (s.label q)) : p = q :=
  hl.eq_of_holds (hl.holds_of_critical hp) (hl.holds_of_critical hq)

lemma locked_ideStep {a : IdeAct P B} (hl : Locked (ide P chan havedisk1) Held s)
    (h : ideStep chan havedisk1 s a = some s') : Locked (ide P chan havedisk1) Held s' := by
  have hstep : ∀ {m a}, step (ide P chan havedisk1) { s with mem := m } a = some s' →
      Locked (ide P chan havedisk1) Held s' := fun h =>
    (hl.of_mem _).step ide_disciplined (trans_of_step h)
  unfold ideStep at h
  split at h
  · exact hstep (Option.ite_none_right_eq_some.mp h).2
  · exact hstep (Option.ite_none_right_eq_some.mp h).2
  · exact hstep h
  · obtain ⟨-, h⟩ := Option.ite_none_right_eq_some.mp h
    cases h
    exact hl.of_mem _
  · obtain ⟨-, h⟩ := Option.ite_none_right_eq_some.mp h
    cases h
    exact hl.of_mem _
  · obtain ⟨-, h⟩ := Option.ite_none_right_eq_some.mp h
    cases h
    exact hl.of_mem _
  · obtain ⟨c, -, rfl⟩ := Option.map_eq_some_iff.mp h
    exact hl.of_mem _

end Xv6.Sync
