import Xv6.Fs.Cache
import Xv6.Transition.Run

/-!
The file system's log (`log.c`) over the buffer cache and the disk, as one
transition system with crashes.

A process is between two steps wherever another process or a crash can come in:
where it takes or waits for a lock, and at every disk write.  What a process does
to a buffer it has locked, up to the next disk write or release, is one step with
it, since nobody else can see it.

* `Mode`, `Phase`: where a process is in `begin_op`, `log_write`, `end_op` and
  `commit`, or in `recover_from_log`.  `Call`: where it is inside a `bread` or
  `brelse`.
* `Machine n`, `Act n`, `step`: the state of a machine with `n + 1` processes, the
  actions and the step function.  A panic is a step that is not possible.
* A process uses the cache as the callers of the log do: it changes a buffer only
  between `begin_op` and `end_op` and while it holds the buffer's lock, and it
  passes the buffer to `log_write` before it releases it or ends the operation.
  `unlogged` marks the buffers changed since; no code reads it.  A process may
  read blocks outside an operation.
* `crash` is possible in every state.  Only the disk survives, and the first
  process runs `recover_from_log` before there are other processes.
* `Trans`, `trans_of_step`: all that a step can do.
-/

namespace Xv6.Fs

open Transition Function

/-! ### The state -/

/-- `struct log`, without its constants: `n` and `block` of `lh` are one list. -/
structure Log where
  outstanding : ℕ := 0
  committing : Bool := false
  lh : List ℕ := []

/-- Where a process is inside `bread` or `brelse`: waiting for the buffer's lock,
holding it with the data not known to be there, or having released it with the
reference still counted. -/
inductive Call where
  | none
  | locking (i : BufId)
  | filling (i : BufId)
  | releasing (i : BufId)
  deriving DecidableEq, Repr

/-- The two loops over the logged blocks. -/
inductive Loop where
  | writeLog | installTrans
  deriving DecidableEq, Repr

/-- The buffer a loop copies from, of the log block's and the home block's. -/
def Loop.source : Loop → BufId → BufId → BufId
  | .writeLog, _, d => d
  | .installTrans, l, _ => l

/-- The buffer a loop copies to and writes. -/
def Loop.target : Loop → BufId → BufId → BufId
  | .writeLog, l, _ => l
  | .installTrans, _, d => d

/-- The points of `commit` and `recover_from_log`: `read_head` before and after its
`bread`; a loop before its test, after each of its two `bread`s, after `bwrite`
and after its first `brelse`; `write_head` before and after its `bread` and after
`bwrite`, where `first` tells the commit point from the erasure; the end. -/
inductive Phase where
  | readHead
  | gotHead (h : BufId)
  | loop (k : Loop) (tail : ℕ)
  | loopLog (k : Loop) (tail : ℕ) (l : BufId)
  | loopBoth (k : Loop) (tail : ℕ) (l d : BufId)
  | loopCopied (k : Loop) (tail : ℕ) (l d : BufId)
  | loopLast (k : Loop) (tail : ℕ) (i : BufId)
  | writeHead (first : Bool)
  | fillHead (first : Bool) (h : BufId)
  | wroteHead (first : Bool) (h : BufId)
  | finish
  deriving DecidableEq, Repr

inductive Caller where
  | commit | recover
  deriving DecidableEq, Repr

/-- Where a process is: not there yet; outside an operation; sleeping in `begin_op`
or woken there; in an operation; in `log_write`, past its two tests; in `commit`
or `recover_from_log`. -/
inductive Mode where
  | down | user | asleep | retry | op
  | checked (i : BufId)
  | busy (w : Caller) (p : Phase)
  deriving DecidableEq, Repr

structure Machine (n : ℕ) where
  disk : Disk
  cache : Cache n
  log : Log
  mode : Tid n → Mode
  call : Tid n → Call
  unlogged : BufId → Bool

variable {n : ℕ}

/-- The machine that is switched on with the disk `d`. -/
def powerOn (d : Disk) : Machine n where
  disk := d
  cache := binit
  log := {}
  mode t := if t = 0 then .busy .recover .readHead else .down
  call _ := .none
  unlogged _ := false

inductive Act (n : ℕ) where
  | crash
  | cont (t : Tid n)
  | run (t : Tid n)
  | beginOp (t : Tid n)
  | wake (t : Tid n)
  | bread (t : Tid n) (b : ℕ)
  | modify (t : Tid n) (i : BufId) (d : Block)
  | logCheck (t : Tid n) (i : BufId)
  | logWrite (t : Tid n)
  | brelse (t : Tid n) (i : BufId)
  | endOp (t : Tid n)

/-- The process that takes the step; a crash is nobody's. -/
def Act.actor : Act n → Option (Tid n)
  | .crash => none
  | .cont t | .run t | .beginOp t | .wake t | .bread t _ | .modify t _ _ | .logCheck t _
  | .logWrite t | .brelse t _ | .endOp t => some t

/-! ### The steps -/

/-- `begin_op` has to sleep. -/
def Log.full (l : Log) : Bool :=
  l.committing || decide (LOGSIZE < l.lh.length + (l.outstanding + 1) * MAXOPBLOCKS)

/-- The block number is added unless it is there already. -/
def absorb (lh : List ℕ) (b : ℕ) : List ℕ := if b ∈ lh then lh else lh ++ [b]

lemma mem_absorb {lh : List ℕ} {b x : ℕ} : x ∈ absorb lh b ↔ x ∈ lh ∨ x = b := by
  rw [absorb]
  split
  · rename_i hb
    exact ⟨.inl, fun h => h.elim id (· ▸ hb)⟩
  · simp

lemma nodup_absorb {lh : List ℕ} (h : lh.Nodup) (b : ℕ) : (absorb lh b).Nodup := by
  rw [absorb]
  split
  · exact h
  · rename_i hb
    exact h.append (List.nodup_singleton b) (by simpa using hb)

/-- `wakeup(&log)`. -/
def wakeup (m : Tid n → Mode) : Tid n → Mode := fun u => if m u = .asleep then .retry else m u

/-- `wakeup` changes only sleepers. -/
lemma wakeup_eq_iff {m : Tid n → Mode} {u : Tid n} {v : Mode} (ha : v ≠ .asleep)
    (hr : v ≠ .retry) : wakeup m u = v ↔ m u = v := by
  rw [wakeup]
  split
  · rename_i hs
    simp [hs, Ne.symm ha, Ne.symm hr]
  · rfl

/-- The next step of the rest of `bread` and `brelse`, with the disk, the cache and the call after
it. -/
def contCall (d : Disk) (c : Cache n) (t : Tid n) : Call → Option (Disk × Cache n × Call)
  | .none => none
  | .locking i =>
    if (c.buf i).lock = none then
      some (d, c.setBuf i { c.buf i with lock := some t }, .filling i)
    else none
  | .filling i =>
    if (c.buf i).valid then some (d, c, .none)
    else (iderw d (c.buf i)).map fun (d', b) => (d', c.setBuf i b, .none)
  | .releasing i => some (d, c.unref i, .none)

/-- All that such a step can do. -/
lemma contCall_cases {d d' : Disk} {c c' : Cache n} {t : Tid n} {f f' : Call}
    (h : contCall d c t f = some (d', c', f')) :
    (∃ i, f = .locking i ∧ (c.buf i).lock = none ∧ d' = d ∧
      c' = c.setBuf i { c.buf i with lock := some t } ∧ f' = .filling i) ∨
    (∃ i, f = .filling i ∧ (c.buf i).valid = true ∧ d' = d ∧ c' = c ∧ f' = .none) ∨
    (∃ i b, f = .filling i ∧ (c.buf i).valid = false ∧ iderw d (c.buf i) = some (d', b) ∧
      c' = c.setBuf i b ∧ f' = .none) ∨
    ∃ i, f = .releasing i ∧ d' = d ∧ c' = c.unref i ∧ f' = .none := by
  cases f with
  | none => cases h
  | locking i =>
    rw [contCall, Option.ite_none_right_eq_some] at h
    obtain ⟨hl, h⟩ := h
    cases h
    exact .inl ⟨i, rfl, hl, rfl, rfl, rfl⟩
  | filling i =>
    rw [contCall] at h
    split at h
    · next hv =>
      cases h
      exact .inr (.inl ⟨i, rfl, hv, rfl, rfl, rfl⟩)
    · next hv =>
      obtain ⟨⟨d₁, b⟩, hd, he⟩ := Option.map_eq_some_iff.mp h
      cases he
      exact .inr (.inr (.inl ⟨i, b, rfl, Bool.eq_false_of_not_eq_true hv, hd, rfl, rfl⟩))
  | releasing i =>
    cases h
    exact .inr (.inr (.inr ⟨i, rfl, rfl, rfl, rfl⟩))

/-- The first point of `commit`. -/
def commitStart (lh : List ℕ) : Phase := if 0 < lh.length then .loop .writeLog 0 else .finish

namespace Machine

/-- A `bread` up to the lock of the buffer, with the point after it. -/
def bread (s : Machine n) (t : Tid n) (b : ℕ) (m : BufId → Mode) : Option (Machine n) :=
  match bget s.cache b with
  | none => none
  | some (c, i) =>
    some { s with
      cache := c
      call := update s.call t (.locking i)
      mode := update s.mode t (m i) }

/-- A `brelse` up to `releasesleep`, with the point after it. -/
def brelse (s : Machine n) (t : Tid n) (i : BufId) (m : Mode) : Option (Machine n) :=
  if (s.cache.buf i).lock = some t then
    some { s with
      cache := s.cache.setBuf i { s.cache.buf i with lock := none }
      call := update s.call t (.releasing i)
      mode := update s.mode t m }
  else none

/-- A `bwrite` of a buffer with new data, with the point after it. -/
def bwrite (s : Machine n) (t : Tid n) (i : BufId) (data : Block) (m : Mode) :
    Option (Machine n) :=
  match Fs.bwrite s.disk t { s.cache.buf i with data := data } with
  | none => none
  | some (d, b) =>
    some { s with
      disk := d
      cache := s.cache.setBuf i b
      mode := update s.mode t m }

/-- The rest of `bread` and `brelse`. -/
def cont (s : Machine n) (t : Tid n) : Option (Machine n) :=
  (contCall s.disk s.cache t (s.call t)).map fun (d, c, f) =>
    { s with disk := d, cache := c, call := update s.call t f }

/-- The next step of `commit` or `recover_from_log`. -/
def runPhase (L : Layout) (s : Machine n) (t : Tid n) (w : Caller) : Phase → Option (Machine n)
  | .readHead => s.bread t L.logstart fun i => .busy w (.gotHead i)
  | .gotHead h =>
    { s with log := { s.log with lh := Fs.readHead (s.cache.buf h).data } }.brelse t h
      (.busy w (.loop .installTrans 0))
  | .loop k tail =>
    if tail < s.log.lh.length then s.bread t (L.slot tail) fun l => .busy w (.loopLog k tail l)
    else
      match k with
      | .writeLog =>
        some { s with mode := update s.mode t (.busy w (.writeHead true)) }
      | .installTrans =>
        some { s with
          log := { s.log with lh := [] }
          mode := update s.mode t (.busy w (.writeHead false)) }
  | .loopLog k tail l =>
    match s.log.lh[tail]? with
    | none => none
    | some b => s.bread t b fun d => .busy w (.loopBoth k tail l d)
  | .loopBoth k tail l d =>
    s.bwrite t (k.target l d) (s.cache.buf (k.source l d)).data (.busy w (.loopCopied k tail l d))
  | .loopCopied k tail l d =>
    s.brelse t (k.source l d) (.busy w (.loopLast k tail (k.target l d)))
  | .loopLast k tail i => s.brelse t i (.busy w (.loop k (tail + 1)))
  | .writeHead first => s.bread t L.logstart fun h => .busy w (.fillHead first h)
  | .fillHead first h =>
    s.bwrite t h (Fs.writeHead s.log.lh (s.cache.buf h).data) (.busy w (.wroteHead first h))
  | .wroteHead first h =>
    s.brelse t h (.busy w (if first then .loop .installTrans 0 else .finish))
  | .finish =>
    match w with
    | .commit =>
      some { s with
        log := { s.log with committing := false }
        mode := update (wakeup s.mode) t .user }
    | .recover => some { s with mode := fun _ => .user }

end Machine

/-- **One step of the machine**, or `none` when the action is not possible. -/
def step (L : Layout) (s : Machine n) : Act n → Option (Machine n)
  | .crash => some (powerOn s.disk)
  | .cont t => s.cont t
  | .run t =>
    match s.call t, s.mode t with
    | .none, .busy w p => s.runPhase L t w p
    | _, _ => none
  | .beginOp t =>
    if s.call t = .none ∧ (s.mode t = .user ∨ s.mode t = .retry) then
      if s.log.full then some { s with mode := update s.mode t .asleep }
      else
        some { s with
          log := { s.log with outstanding := s.log.outstanding + 1 }
          mode := update s.mode t .op }
    else none
  | .wake t =>
    -- `kill` wakes a process wherever it sleeps
    if s.mode t = .asleep then some { s with mode := update s.mode t .retry } else none
  | .bread t b =>
    if s.call t = .none ∧ (s.mode t = .user ∨ s.mode t = .op) ∧ L.Home b then
      s.bread t b fun _ => s.mode t
    else none
  | .modify t i d =>
    if s.call t = .none ∧ s.mode t = .op ∧ (s.cache.buf i).lock = some t then
      some { s with
        cache := s.cache.setBuf i { s.cache.buf i with data := d }
        unlogged := update s.unlogged i true }
    else none
  | .logCheck t i =>
    -- the two tests of `log_write`, made without the lock
    if s.call t = .none ∧ s.mode t = .op ∧ (s.cache.buf i).lock = some t ∧
        s.log.lh.length < LOGSIZE - 1 ∧ 1 ≤ s.log.outstanding then
      some { s with mode := update s.mode t (.checked i) }
    else none
  | .logWrite t =>
    match s.mode t with
    | .checked i =>
      match (s.cache.buf i).blockno with
      | none => none
      | some b =>
        some { s with
          cache := s.cache.setBuf i { s.cache.buf i with dirty := true }
          log := { s.log with lh := absorb s.log.lh b }
          mode := update s.mode t .op
          unlogged := update s.unlogged i false }
    | _ => none
  | .brelse t i =>
    if s.call t = .none ∧ (s.mode t = .user ∨ s.mode t = .op) ∧ s.unlogged i = false then
      s.brelse t i (s.mode t)
    else none
  | .endOp t =>
    if s.call t = .none ∧ s.mode t = .op ∧
        (∀ i, (s.cache.buf i).lock = some t → s.unlogged i = false) ∧
        s.log.committing = false then
      if s.log.outstanding - 1 = 0 then
        some { s with
          log := { s.log with outstanding := 0, committing := true }
          mode := update s.mode t (.busy .commit (commitStart s.log.lh)) }
      else
        some { s with
          log := { s.log with outstanding := s.log.outstanding - 1 }
          mode := update (wakeup s.mode) t .user }
    else none

/-! ### All that a step can do -/

/-- The `bread`s of `commit` and `recover_from_log`: at the point `p` the block `b`
is read, and `q` is the point after it. -/
inductive Reads (L : Layout) (lh : List ℕ) : Phase → ℕ → (BufId → Phase) → Prop where
  | readHead : Reads L lh .readHead L.logstart .gotHead
  | slot {k : Loop} {tail : ℕ} : tail < lh.length →
      Reads L lh (.loop k tail) (L.slot tail) (.loopLog k tail)
  | home {k : Loop} {tail b : ℕ} {l : BufId} : lh[tail]? = some b →
      Reads L lh (.loopLog k tail l) b (.loopBoth k tail l)
  | writeHead {first : Bool} : Reads L lh (.writeHead first) L.logstart (.fillHead first)

/-- The `brelse`s of `commit` and `recover_from_log` that nothing else is done with. -/
inductive Releases : Phase → BufId → Phase → Prop where
  | copied {k : Loop} {tail : ℕ} {l d : BufId} :
      Releases (.loopCopied k tail l d) (k.source l d) (.loopLast k tail (k.target l d))
  | last {k : Loop} {tail : ℕ} {i : BufId} : Releases (.loopLast k tail i) i (.loop k (tail + 1))
  | committed {h : BufId} : Releases (.wroteHead true h) h (.loop .installTrans 0)
  | erased {h : BufId} : Releases (.wroteHead false h) h .finish

/-- The `bwrite`s of `commit` and `recover_from_log`: the buffer, the data it gets
and the point after it. -/
inductive Writes (s : Machine n) : Phase → BufId → Block → Phase → Prop where
  | copy {k : Loop} {tail : ℕ} {l d : BufId} :
      Writes s (.loopBoth k tail l d) (k.target l d) (s.cache.buf (k.source l d)).data
        (.loopCopied k tail l d)
  | head {first : Bool} {h : BufId} :
      Writes s (.fillHead first h) h (writeHead s.log.lh (s.cache.buf h).data)
        (.wroteHead first h)

/-- The steps of `commit` and `recover_from_log`. -/
inductive PhaseTo (L : Layout) (s : Machine n) (t : Tid n) :
    Caller → Phase → Machine n → Prop where
  | read {w : Caller} {p : Phase} {q : BufId → Phase} {b : ℕ} {c : Cache n} {i : BufId} :
      Reads L s.log.lh p b q → BgetTo s.cache b i c →
      PhaseTo L s t w p { s with
        cache := c
        call := update s.call t (.locking i)
        mode := update s.mode t (.busy w (q i)) }
  | release {w : Caller} {p q : Phase} {i : BufId} :
      Releases p i q → (s.cache.buf i).lock = some t →
      PhaseTo L s t w p { s with
        cache := s.cache.setBuf i { s.cache.buf i with lock := none }
        call := update s.call t (.releasing i)
        mode := update s.mode t (.busy w q) }
  | write {w : Caller} {p q : Phase} {i : BufId} {data : Block} {x : ℕ} :
      Writes s p i data q → (s.cache.buf i).lock = some t → x < FSSIZE →
      (s.cache.buf i).blockno = some x →
      PhaseTo L s t w p { s with
        disk := update s.disk x data
        cache := s.cache.setBuf i { s.cache.buf i with data := data, valid := true, dirty := false }
        mode := update s.mode t (.busy w q) }
  | decode {w : Caller} {h : BufId} : (s.cache.buf h).lock = some t →
      PhaseTo L s t w (.gotHead h) { s with
        cache := s.cache.setBuf h { s.cache.buf h with lock := none }
        log := { s.log with lh := readHead (s.cache.buf h).data }
        call := update s.call t (.releasing h)
        mode := update s.mode t (.busy w (.loop .installTrans 0)) }
  | logged {w : Caller} {tail : ℕ} : s.log.lh.length ≤ tail →
      PhaseTo L s t w (.loop .writeLog tail)
        { s with mode := update s.mode t (.busy w (.writeHead true)) }
  | installed {w : Caller} {tail : ℕ} : s.log.lh.length ≤ tail →
      PhaseTo L s t w (.loop .installTrans tail) { s with
        log := { s.log with lh := [] }
        mode := update s.mode t (.busy w (.writeHead false)) }
  | endCommit : PhaseTo L s t .commit .finish { s with
        log := { s.log with committing := false }
        mode := update (wakeup s.mode) t .user }
  | endRecover : PhaseTo L s t .recover .finish { s with mode := fun _ => .user }

variable {s s' : Machine n} {t : Tid n}

lemma bread_eq_some {b : ℕ} {m : BufId → Mode} (h : s.bread t b m = some s') :
    ∃ c i, BgetTo s.cache b i c ∧ s' = { s with
      cache := c
      call := update s.call t (.locking i)
      mode := update s.mode t (m i) } := by
  rw [Machine.bread] at h
  split at h
  · exact absurd h (by simp)
  · rename_i c i hb
    exact ⟨c, i, bgetTo_of_bget hb, (Option.some.inj h).symm⟩

lemma brelse_eq_some {i : BufId} {m : Mode} (h : s.brelse t i m = some s') :
    (s.cache.buf i).lock = some t ∧ s' = { s with
      cache := s.cache.setBuf i { s.cache.buf i with lock := none }
      call := update s.call t (.releasing i)
      mode := update s.mode t m } := by
  rw [Machine.brelse, Option.ite_none_right_eq_some] at h
  exact ⟨h.1, (Option.some.inj h.2).symm⟩

lemma machine_bwrite_eq_some {i : BufId} {data : Block} {m : Mode}
    (h : s.bwrite t i data m = some s') :
    (s.cache.buf i).lock = some t ∧ ∃ x < FSSIZE, (s.cache.buf i).blockno = some x ∧ s' = { s with
      disk := update s.disk x data
      cache := s.cache.setBuf i { s.cache.buf i with data := data, valid := true, dirty := false }
      mode := update s.mode t m } := by
  rw [Machine.bwrite] at h
  split at h
  · exact absurd h (by simp)
  · rename_i d b hb
    obtain ⟨hl, x, hx, hn, rfl, rfl⟩ := bwrite_eq_some hb
    exact ⟨hl, x, hx, hn, (Option.some.inj h).symm⟩

variable {L : Layout}

lemma phaseTo_of_runPhase {w : Caller} {p : Phase}
    (h : s.runPhase L t w p = some s') : PhaseTo L s t w p s' := by
  cases p with
  | readHead =>
    obtain ⟨c, i, hb, rfl⟩ := bread_eq_some h
    exact .read .readHead hb
  | gotHead b =>
    obtain ⟨hl, rfl⟩ := brelse_eq_some h
    exact .decode hl
  | loop k tail =>
    simp only [Machine.runPhase] at h
    split at h
    · obtain ⟨c, i, hb, rfl⟩ := bread_eq_some h
      exact .read (.slot ‹_›) hb
    · cases k <;> (obtain rfl := Option.some.inj h)
      · exact .logged (by omega)
      · exact .installed (by omega)
  | loopLog k tail l =>
    simp only [Machine.runPhase] at h
    split at h
    · exact absurd h (by simp)
    · obtain ⟨c, i, hb, rfl⟩ := bread_eq_some h
      exact .read (.home ‹_›) hb
  | loopBoth k tail l d =>
    obtain ⟨hl, x, hx, hn, rfl⟩ := machine_bwrite_eq_some h
    exact .write .copy hl hx hn
  | loopCopied k tail l d =>
    obtain ⟨hl, rfl⟩ := brelse_eq_some h
    exact .release .copied hl
  | loopLast k tail i =>
    obtain ⟨hl, rfl⟩ := brelse_eq_some h
    exact .release .last hl
  | writeHead first =>
    obtain ⟨c, i, hb, rfl⟩ := bread_eq_some h
    exact .read .writeHead hb
  | fillHead first b =>
    obtain ⟨hl, x, hx, hn, rfl⟩ := machine_bwrite_eq_some h
    exact .write .head hl hx hn
  | wroteHead first b =>
    obtain ⟨hl, rfl⟩ := brelse_eq_some h
    cases first
    · exact .release .erased hl
    · exact .release .committed hl
  | finish =>
    cases w <;> (obtain rfl := Option.some.inj h)
    · exact .endCommit
    · exact .endRecover

/-- **All that a step can do.** -/
inductive Trans (L : Layout) (s : Machine n) : Act n → Machine n → Prop where
  | crash : Trans L s .crash (powerOn s.disk)
  | lock {t : Tid n} {i : BufId} : s.call t = .locking i → (s.cache.buf i).lock = none →
      Trans L s (.cont t) { s with
        cache := s.cache.setBuf i { s.cache.buf i with lock := some t }
        call := update s.call t (.filling i) }
  | cached {t : Tid n} {i : BufId} : s.call t = .filling i → (s.cache.buf i).valid = true →
      Trans L s (.cont t) { s with call := update s.call t .none }
  | fill {t : Tid n} {i : BufId} {d : Disk} {b : Buf n} : s.call t = .filling i →
      (s.cache.buf i).valid = false → iderw s.disk (s.cache.buf i) = some (d, b) →
      Trans L s (.cont t) { s with
        disk := d
        cache := s.cache.setBuf i b
        call := update s.call t .none }
  | unref {t : Tid n} {i : BufId} : s.call t = .releasing i →
      Trans L s (.cont t) { s with
        cache := s.cache.unref i
        call := update s.call t .none }
  | phase {t : Tid n} {w : Caller} {p : Phase} {s' : Machine n} : s.call t = .none →
      s.mode t = .busy w p → PhaseTo L s t w p s' → Trans L s (.run t) s'
  | sleep {t : Tid n} : s.mode t = .user ∨ s.mode t = .retry → s.log.full = true →
      Trans L s (.beginOp t) { s with mode := update s.mode t .asleep }
  | beginOp {t : Tid n} : s.mode t = .user ∨ s.mode t = .retry → s.log.full = false →
      Trans L s (.beginOp t) { s with
        log := { s.log with outstanding := s.log.outstanding + 1 }
        mode := update s.mode t .op }
  | wake {t : Tid n} : s.mode t = .asleep →
      Trans L s (.wake t) { s with mode := update s.mode t .retry }
  | bread {t : Tid n} {b : ℕ} {c : Cache n} {i : BufId} : s.call t = .none →
      s.mode t = .user ∨ s.mode t = .op → L.Home b → BgetTo s.cache b i c →
      Trans L s (.bread t b) { s with
        cache := c
        call := update s.call t (.locking i) }
  | modify {t : Tid n} {i : BufId} {d : Block} : s.call t = .none → s.mode t = .op →
      (s.cache.buf i).lock = some t →
      Trans L s (.modify t i d) { s with
        cache := s.cache.setBuf i { s.cache.buf i with data := d }
        unlogged := update s.unlogged i true }
  | logCheck {t : Tid n} {i : BufId} : s.call t = .none → s.mode t = .op →
      (s.cache.buf i).lock = some t → s.log.lh.length < LOGSIZE - 1 → 1 ≤ s.log.outstanding →
      Trans L s (.logCheck t i) { s with mode := update s.mode t (.checked i) }
  | logWrite {t : Tid n} {i : BufId} {b : ℕ} : s.mode t = .checked i →
      (s.cache.buf i).blockno = some b →
      Trans L s (.logWrite t) { s with
        cache := s.cache.setBuf i { s.cache.buf i with dirty := true }
        log := { s.log with lh := absorb s.log.lh b }
        mode := update s.mode t .op
        unlogged := update s.unlogged i false }
  | brelse {t : Tid n} {i : BufId} : s.call t = .none → s.mode t = .user ∨ s.mode t = .op →
      s.unlogged i = false → (s.cache.buf i).lock = some t →
      Trans L s (.brelse t i) { s with
        cache := s.cache.setBuf i { s.cache.buf i with lock := none }
        call := update s.call t (.releasing i) }
  | endLast {t : Tid n} : s.call t = .none → s.mode t = .op →
      (∀ i, (s.cache.buf i).lock = some t → s.unlogged i = false) → s.log.committing = false →
      s.log.outstanding - 1 = 0 →
      Trans L s (.endOp t) { s with
        log := { s.log with outstanding := 0, committing := true }
        mode := update s.mode t (.busy .commit (commitStart s.log.lh)) }
  | endOp {t : Tid n} : s.call t = .none → s.mode t = .op →
      (∀ i, (s.cache.buf i).lock = some t → s.unlogged i = false) → s.log.committing = false →
      s.log.outstanding - 1 ≠ 0 →
      Trans L s (.endOp t) { s with
        log := { s.log with outstanding := s.log.outstanding - 1 }
        mode := update (wakeup s.mode) t .user }

lemma trans_of_cont (h : s.cont t = some s') :
    Trans L s (.cont t) s' := by
  obtain ⟨⟨d, c, f⟩, hcont, rfl⟩ := Option.map_eq_some_iff.mp h
  obtain ⟨i, hc, hl, rfl, rfl, rfl⟩ | ⟨i, hc, hv, rfl, rfl, rfl⟩ | ⟨i, b, hc, hv, hd, rfl, rfl⟩ |
    ⟨i, hc, rfl, rfl, rfl⟩ := contCall_cases hcont
  · exact .lock hc hl
  · exact .cached hc hv
  · exact .fill hc hv hd
  · exact .unref hc

theorem trans_of_step {a : Act n} (h : step L s a = some s') :
    Trans L s a s' := by
  cases a with
  | crash =>
    obtain rfl := Option.some.inj h
    exact .crash
  | cont t => exact trans_of_cont h
  | run t =>
    simp only [step] at h
    split at h
    · exact .phase ‹_› ‹_› (phaseTo_of_runPhase h)
    · exact absurd h (by simp)
  | beginOp t =>
    simp only [step, Option.ite_none_right_eq_some] at h
    obtain ⟨⟨_, hm⟩, h⟩ := h
    split at h <;> obtain rfl := Option.some.inj h
    · exact .sleep hm ‹_›
    · exact .beginOp hm (Bool.eq_false_of_not_eq_true ‹_›)
  | wake t =>
    simp only [step, Option.ite_none_right_eq_some] at h
    obtain ⟨hm, rfl⟩ := h.imp_right Option.some.inj
    exact .wake hm
  | bread t b =>
    simp only [step, Option.ite_none_right_eq_some] at h
    obtain ⟨⟨hc, hm, hb⟩, h⟩ := h
    obtain ⟨c, i, hg, rfl⟩ := bread_eq_some h
    rw [update_eq_self]
    exact .bread hc hm hb hg
  | modify t i d =>
    simp only [step, Option.ite_none_right_eq_some] at h
    obtain ⟨⟨hc, hm, hl⟩, rfl⟩ := h.imp_right Option.some.inj
    exact .modify hc hm hl
  | logCheck t i =>
    simp only [step, Option.ite_none_right_eq_some] at h
    obtain ⟨⟨hc, hm, hl, hn, ho⟩, rfl⟩ := h.imp_right Option.some.inj
    exact .logCheck hc hm hl hn ho
  | logWrite t =>
    simp only [step] at h
    split at h
    · split at h
      · exact absurd h (by simp)
      · obtain rfl := Option.some.inj h
        exact .logWrite ‹_› ‹_›
    · exact absurd h (by simp)
  | brelse t i =>
    simp only [step, Option.ite_none_right_eq_some] at h
    obtain ⟨⟨hc, hm, hu⟩, h⟩ := h
    obtain ⟨hl, rfl⟩ := brelse_eq_some h
    rw [update_eq_self]
    exact .brelse hc hm hu hl
  | endOp t =>
    simp only [step, Option.ite_none_right_eq_some] at h
    obtain ⟨⟨hc, hm, hu, hk⟩, h⟩ := h
    split at h <;> obtain rfl := Option.some.inj h
    · exact .endLast hc hm hu hk ‹_›
    · exact .endOp hc hm hu hk ‹_›

end Xv6.Fs
