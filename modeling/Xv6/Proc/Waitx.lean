import Xv6.Proc.Entry

/-!
`waitx` against `wait`.

`waitx` clears the time counters of the entry it frees and `wait` leaves them.  Nothing reads them:
the entry is `UNUSED`, ticks are counted for other states only, and `allocproc` clears the counters
of the entry it takes.

* `Proc.Alike`, `Ptable.Alike`, `Kernel.Alike`: states that differ in the counters of `UNUSED`
  entries at most, and in whether a process that sleeps is in `wait` or in `waitx`.
* `Replaces`: a `wait` may be replaced by a `waitx`.
* `alike_step`: alike states go to alike states.
* `result`: what a step returns to its caller; `result_alike`: in alike states it is the same.
* `waitx_agrees`: the comparison, for one pass and for whole runs.
-/

namespace Xv6

open Ptable Transition Function

/-- **Entries that differ in time counters at most**, and in nothing if they are in use. -/
structure Proc.Alike (x y : Proc) : Prop where
  state : x.state = y.state
  pid : x.pid = y.pid
  parent : x.parent = y.parent
  chan : x.chan = y.chan
  killed : x.killed = y.killed
  gid : x.gid = y.gid
  eq : x.state ≠ .unused → x = y

/-- Tables with entries that are alike. -/
structure Ptable.Alike (t u : Ptable) : Prop where
  proc : ∀ q, (t.proc q).Alike (u.proc q)
  initproc : t.initproc = u.initproc
  nextpid : t.nextpid = u.nextpid
  gtable : t.gtable = u.gtable

lemma Proc.Alike.refl (x : Proc) : x.Alike x := ⟨rfl, rfl, rfl, rfl, rfl, rfl, fun _ => rfl⟩

namespace Ptable.Alike

variable {t u : Ptable} {p q : Slot}

lemma refl (t : Ptable) : t.Alike t := ⟨fun _ => .refl _, rfl, rfl, rfl⟩

/-- Entries in use are the same. -/
lemma proc_eq (h : t.Alike u) (hp : (t.proc p).state ≠ .unused) :
    t.proc p = u.proc p := (h.proc p).eq hp

lemma setProc (h : t.Alike u) {x y : Proc} (hxy : x.Alike y) :
    (t.setProc p x).Alike (u.setProc p y) := by
  refine ⟨fun q => ?_, h.initproc, h.nextpid, h.gtable⟩
  rw [setProc_proc, setProc_proc]
  split
  · exact hxy
  · exact h.proc q

lemma mapProc (h : t.Alike u) {f : Slot → Proc → Proc}
    (hf : ∀ q x y, x.Alike y → (f q x).Alike (f q y)) : (t.mapProc f).Alike (u.mapProc f) :=
  ⟨fun q => hf q _ _ (h.proc q), h.initproc, h.nextpid, h.gtable⟩

lemma setGroup (h : t.Alike u) (i : GSlot) (x : Group) :
    (t.setGroup i x).Alike (u.setGroup i x) := by
  refine ⟨h.proc, h.initproc, h.nextpid, ?_⟩
  funext j
  rw [setGroup_gtable, setGroup_gtable, h.gtable]

lemma findProc_eq (h : t.Alike u) {ok : Proc → Bool} (hok : ∀ x y : Proc, x.Alike y → ok x = ok y) :
    findProc t ok = findProc u ok := by
  have hfun : (fun p => ok (t.proc p)) =
      fun p => ok (u.proc p) := funext fun p => hok _ _ (h.proc p)
  rw [findProc, findProc, hfun]

lemma findGroup_eq (h : t.Alike u) (ok : Group → Bool) : findGroup t ok = findGroup u ok := by
  rw [findGroup, findGroup, h.gtable]

end Ptable.Alike

namespace Ptable.Alike

variable {t u : Ptable} {p np : Slot}

/-! ### The sections of `proc.c` -/

lemma fssGroupEnsure (h : t.Alike u) (gid : ℤ) :
    (Xv6.fssGroupEnsure t gid).1.Alike (Xv6.fssGroupEnsure u gid).1 ∧
      (Xv6.fssGroupEnsure t gid).2 = (Xv6.fssGroupEnsure u gid).2 := by
  simp only [Xv6.fssGroupEnsure, fssGroupLookup, h.findGroup_eq]
  split
  · exact ⟨h, rfl⟩
  · split
    · exact ⟨h.setGroup _ _, rfl⟩
    · exact ⟨h, rfl⟩

lemma runnableIn_eq (g : Group) (x y : Proc) (h : x.Alike y) : runnableIn g x = runnableIn g y := by
  rw [runnableIn, runnableIn, h.state, h.gid]

lemma fssGroupHasRunnable_eq (h : t.Alike u) (g : GSlot) :
    fssGroupHasRunnable t g = fssGroupHasRunnable u g := by
  rw [fssGroupHasRunnable, fssGroupHasRunnable, h.gtable, h.findProc_eq (runnableIn_eq _)]

lemma fssPickGroup_eq (h : t.Alike u) : fssPickGroup t = fssPickGroup u := by
  have hbody : fssPickGroupBody t = fssPickGroupBody u := by
    funext best i
    simp only [fssPickGroupBody, h.gtable, h.fssGroupHasRunnable_eq]
  rw [fssPickGroup, fssPickGroup, hbody]

lemma fssPickProcInGroup (h : t.Alike u) (g : GSlot) :
    (Xv6.fssPickProcInGroup t (some g)).1.Alike (Xv6.fssPickProcInGroup u (some g)).1 ∧
      (Xv6.fssPickProcInGroup t (some g)).2 = (Xv6.fssPickProcInGroup u (some g)).2 := by
  have hfun :
      (fun j => (cursorAt (t.gtable g) j).filter fun q => runnableIn (t.gtable g) (t.proc q))
      = fun j => (cursorAt (u.gtable g) j).filter fun q => runnableIn (u.gtable g) (u.proc q) := by
    have hrun : ∀ q, runnableIn (u.gtable g) (t.proc q) = runnableIn (u.gtable g) (u.proc q) :=
      fun q =>
      runnableIn_eq _ _ _ (h.proc q)
    funext j
    simp only [h.gtable, hrun]
  simp only [Xv6.fssPickProcInGroup, hfun]
  split
  · rw [h.gtable]
    exact ⟨h.setGroup _ _, rfl⟩
  · exact ⟨h, rfl⟩

lemma wakeup1 (h : t.Alike u) (ch : Option Chan) : (Xv6.wakeup1 t ch).Alike (Xv6.wakeup1 u ch) := by
  refine h.mapProc fun q x y hxy => ?_
  rcases eq_or_ne x.state .unused with hx | hx
  · have hx' : (x.wake ch).state = .unused := by simp [Proc.wake, hx]
    have hy' : (y.wake ch).state = .unused := by simp [Proc.wake, ← hxy.state, hx]
    exact ⟨hx'.trans hy'.symm, hxy.pid, hxy.parent, hxy.chan, hxy.killed, hxy.gid,
      fun hne => absurd hx' hne⟩
  · rw [hxy.eq hx]
    exact .refl _

lemma tickAccounting (h : t.Alike u) : (Xv6.tickAccounting t).Alike (Xv6.tickAccounting u) := by
  refine h.mapProc fun q x y hxy => ?_
  rcases eq_or_ne x.state .unused with hx | hx
  · have hx' : x.tick = x := by simp [Proc.tick, hx]
    have hy' : y.tick = y := by simp [Proc.tick, ← hxy.state, hx]
    rw [hx', hy']
    exact hxy
  · rw [hxy.eq hx]
    exact .refl _

/-- A field other than the counters of an entry in use is overwritten. -/
lemma update (h : t.Alike u) (hp : (t.proc p).state ≠ .unused) (f : Proc → Proc) :
    (t.setProc p (f (t.proc p))).Alike (u.setProc p (f (u.proc p))) := by
  rw [← h.proc_eq hp]
  exact h.setProc (.refl _)

lemma allocproc_snd (t : Ptable) :
    (Xv6.allocproc t).2 = findProc t fun x => x.state == .unused := by
  unfold Xv6.allocproc
  split
  · next h => exact h.symm
  · next h => exact h.symm

lemma allocproc (h : t.Alike u) :
    (Xv6.allocproc t).1.Alike (Xv6.allocproc u).1 ∧ (Xv6.allocproc t).2 = (Xv6.allocproc u).2 := by
  have hsnd : (Xv6.allocproc t).2 = (Xv6.allocproc u).2 := by
    rw [allocproc_snd, allocproc_snd]
    exact h.findProc_eq fun x y hxy => by rw [hxy.state]
  refine ⟨?_, hsnd⟩
  rcases allocproc_cases t with ⟨ht, -⟩ | ⟨p, t', ht, -, hproc, hinit, hnext, hg⟩ <;>
    rcases allocproc_cases u with ⟨hu, -⟩ | ⟨q, u', hu, -, hproc', hinit', hnext', hg'⟩
  · rw [ht, hu]
    exact h
  · rw [ht, hu] at hsnd
    cases hsnd
  · rw [ht, hu] at hsnd
    cases hsnd
  · rw [ht, hu] at hsnd ⊢
    obtain rfl : p = q := Option.some.inj hsnd
    refine ⟨fun q => ?_, by rw [hinit, hinit', h.initproc], by rw [hnext, hnext', h.nextpid], ?_⟩
    · rw [hproc, hproc']
      split
      · -- The counters are cleared.
        have hx := h.proc p
        rw [Proc.embryo, Proc.embryo, hx.parent, hx.chan, hx.killed, h.nextpid]
        exact .refl _
      · exact h.proc q
    · rw [hg, hg']
      exact (h.fssGroupEnsure 0).1.gtable

lemma userinit (h : t.Alike u) : (Xv6.userinit t).Alike (Xv6.userinit u) := by
  have hsnd := h.allocproc.2
  rcases userinit_cases t with ⟨ht, hall⟩ | ⟨p, ht, -, hproc, hinit, hnext, hg⟩ <;>
    rcases userinit_cases u with ⟨hu, hall'⟩ | ⟨q, hu, hfree, hproc', hinit', hnext', hg'⟩
  · rw [ht, hu]
    exact h
  · exact absurd ((h.proc q).state.trans hfree) (hall q)
  · rw [ht] at hsnd
    rcases allocproc_cases u with ⟨hnone, -⟩ | ⟨r, u', -, hr, -⟩
    · rw [hnone] at hsnd
      cases hsnd
    · exact absurd hr (hall' r)
  · rw [ht, hu] at hsnd
    obtain rfl : p = q := Option.some.inj hsnd
    refine ⟨fun q => ?_, by rw [hinit, hinit'], by rw [hnext, hnext', h.nextpid], ?_⟩
    · rw [hproc, hproc']
      split
      · have hx := h.proc p
        rw [Proc.embryo, Proc.embryo, hx.parent, hx.chan, hx.killed, h.nextpid]
        exact .refl _
      · exact h.proc q
    · rw [hg, hg']
      exact ((h.fssGroupEnsure 0).1.fssGroupEnsure 0).1.gtable

lemma kill (h : t.Alike u) (pid : ℤ) :
    (Xv6.kill t pid).1.Alike (Xv6.kill u pid).1 ∧ (Xv6.kill t pid).2 = (Xv6.kill u pid).2 := by
  have hfind : (findProc t fun x => x.pid == pid) = findProc u fun x => x.pid == pid :=
    h.findProc_eq fun x y hxy => by rw [hxy.pid]
  simp only [Xv6.kill, hfind]
  split
  · next p _ =>
    refine ⟨?_, rfl⟩
    rcases eq_or_ne (t.proc p).state .unused with hp | hp
    · have hx := h.proc p
      have hp' : (u.proc p).state = .unused := hx.state ▸ hp
      refine h.setProc ⟨?_, hx.pid, hx.parent, hx.chan, rfl, hx.gid, fun hne => absurd ?_ hne⟩
      · simp [hp, hp']
      · simp [hp]
    · rw [← h.proc_eq hp]
      exact h.setProc (.refl _)
  · exact ⟨h, rfl⟩

lemma getgroupK_eq (h : t.Alike u) (pid : ℤ) : getgroupK t pid = getgroupK u pid := by
  have hfind : (findProc t fun x => x.pid == pid && x.state != .unused)
      = findProc u fun x => x.pid == pid && x.state != .unused :=
    h.findProc_eq fun x y hxy => by rw [hxy.pid, hxy.state]
  simp only [getgroupK, hfind]
  split
  · next p _ => exact (h.proc p).gid
  · rfl

lemma setgroupK (h : t.Alike u) (pid gid : ℤ) :
    (Xv6.setgroupK t pid gid).1.Alike (Xv6.setgroupK u pid gid).1 ∧
      (Xv6.setgroupK t pid gid).2 = (Xv6.setgroupK u pid gid).2 := by
  unfold Xv6.setgroupK
  split
  · exact ⟨h, rfl⟩
  · obtain ⟨h', he⟩ := h.fssGroupEnsure gid
    rcases ht : Xv6.fssGroupEnsure t gid with ⟨t', r⟩
    rcases hu : Xv6.fssGroupEnsure u gid with ⟨u', r'⟩
    rw [ht, hu] at h' he
    obtain rfl : r = r' := he
    cases r with
    | none => exact ⟨h', rfl⟩
    | some i =>
      have hfind : (findProc t' fun x => x.pid == pid && x.state != .unused)
          = findProc u' fun x => x.pid == pid && x.state != .unused :=
        h'.findProc_eq fun x y hxy => by rw [hxy.pid, hxy.state]
      cases hf : findProc u' fun x => x.pid == pid && x.state != .unused with
      | none =>
        rw [hf] at hfind
        simp only [hfind, hf]
        exact ⟨h', trivial⟩
      | some p =>
        rw [hf] at hfind
        have hlive := findProc_some hfind
        simp only [Bool.and_eq_true, bne_iff_ne, ne_eq] at hlive
        simp only [hfind, hf]
        exact ⟨h'.update hlive.2 fun x => { x with gid := gid }, trivial⟩

/-- A table read by `exit` is read the same way. -/
lemma exitState_eq (h : t.Alike u) (cur q : Slot) : exitState t cur q = exitState u cur q := by
  have hzc : ∀ z, ZombieChild t cur z ↔ ZombieChild u cur z := fun z => by
    rw [ZombieChild, ZombieChild, (h.proc z).parent, (h.proc z).state]
  simp only [exitState, hzc, (h.proc q).state, (h.proc q).chan, (h.proc cur).parent, h.initproc]

lemma exit (h : t.Alike u) {cur : Slot} (hcur : (t.proc cur).state ≠ .unused) :
    (Xv6.exit t cur).Alike (Xv6.exit u cur) := by
  obtain ⟨hinit, hnext, hg⟩ := exit_frame t cur
  obtain ⟨hinit', hnext', hg'⟩ := exit_frame u cur
  refine ⟨fun q => ?_, by rw [hinit, hinit', h.initproc], by rw [hnext, hnext', h.nextpid],
    by rw [hg, hg', h.gtable]⟩
  rw [exit_proc, exit_proc, ← h.exitState_eq, ← h.initproc]
  rcases eq_or_ne (t.proc q).state .unused with hq | hq
  · have hx := h.proc q
    have hne : q ≠ cur := fun he => hcur (he ▸ hq)
    have hstate : exitState t cur q = .unused := by
      rcases exitState_ne (t := t) hne with he | ⟨hs, -⟩
      · rw [he, hq]
      · rw [hq] at hs
        cases hs
    refine ⟨rfl, hx.pid, ?_, hx.chan, hx.killed, hx.gid, fun hlive => absurd hstate hlive⟩
    rw [hx.parent]
  · rw [h.proc_eq hq]
    exact .refl _

lemma waitPass_eq (h : t.Alike u) (cur : Slot) : waitPass t cur = waitPass u cur := by
  have hz : (findProc t fun x => x.parent == some cur && x.state == .zombie)
      = findProc u fun x => x.parent == some cur && x.state == .zombie :=
    h.findProc_eq fun x y hxy => by rw [hxy.parent, hxy.state]
  have hkid : (findProc t fun x => x.parent == some cur) = findProc u
      fun x => x.parent == some cur :=
    h.findProc_eq fun x y hxy => by rw [hxy.parent]
  simp only [waitPass, hz, hkid, (h.proc cur).killed]

lemma sleep (h : t.Alike u) {cur : Slot} (hcur : (t.proc cur).state ≠ .unused) (ch : Chan) :
    (Xv6.sleep t cur ch).Alike (Xv6.sleep u cur ch) :=
  h.update hcur fun x => { x with chan := some ch, state := .sleeping }

lemma sleepEnd (h : t.Alike u) {cur : Slot} (hcur : (t.proc cur).state ≠ .unused) :
    (Xv6.sleepEnd t cur).Alike (Xv6.sleepEnd u cur) :=
  h.update hcur fun x => { x with chan := none }

end Ptable.Alike

/-! ### One pass -/

/-- A pass of `wait`, or of `waitx` with pointers that may be null. -/
def pass : Option (Bool × Bool) → Ptable → Slot → Ptable × WaitResult
  | none, t, cur => wait t cur
  | some (w, r), t, cur => waitx t cur w r

/-- The return value of a pass. -/
def WaitResult.value : WaitResult → Option ℤ
  | .sleeps => none
  | .returns v _ _ => some v

/-- **Passes of the two functions** in alike tables choose the same outcome and leave alike
tables. -/
lemma pass_alike {t u : Ptable} (h : t.Alike u) {cur : Slot} (hcur : (t.proc cur).state ≠ .unused)
    (f f' : Option (Bool × Bool)) :
    (pass f t cur).1.Alike (pass f' u cur).1 ∧ (pass f t cur).2.value = (pass f' u cur).2.value ∧
      (f = f' → (pass f t cur).2 = (pass f' u cur).2) := by
  have hpass := h.waitPass_eq cur
  cases hw : waitPass t cur with
  | reap z =>
    rw [hw] at hpass
    have hz : t.proc z = u.proc z := h.proc_eq (by rw [(waitPass_reap hw).2]; decide)
    -- The entry that is freed is left by either function.
    have hleft : ∀ x y : Proc, (x = (t.proc z).reapWait ∨ x = (t.proc z).reapWaitx) →
        (y = (t.proc z).reapWait ∨ y = (t.proc z).reapWaitx) →
        (t.setProc z x).Alike (u.setProc z y) := by
      rintro x y (rfl | rfl) (rfl | rfl) <;>
        exact h.setProc ⟨rfl, rfl, rfl, rfl, rfl, rfl, fun hne => absurd rfl hne⟩
    rcases f with _ | ⟨w, r⟩ <;> rcases f' with _ | ⟨w', r'⟩ <;>
      simp only [pass, wait, waitx, hw, ← hpass, ← hz, WaitResult.value]
    · exact ⟨hleft _ _ (.inl rfl) (.inl rfl), trivial, fun _ => trivial⟩
    · exact ⟨hleft _ _ (.inl rfl) (.inr rfl), trivial, fun he => by cases he⟩
    · exact ⟨hleft _ _ (.inr rfl) (.inl rfl), trivial, fun he => by cases he⟩
    · refine ⟨hleft _ _ (.inr rfl) (.inr rfl), trivial, fun he => ?_⟩
      cases he
      rfl
  | fail =>
    rw [hw] at hpass
    rcases f with _ | ⟨w, r⟩ <;> rcases f' with _ | ⟨w', r'⟩ <;>
      simp only [pass, wait, waitx, hw, ← hpass] <;> exact ⟨h, trivial, fun _ => trivial⟩
  | sleep =>
    rw [hw] at hpass
    rcases f with _ | ⟨w, r⟩ <;> rcases f' with _ | ⟨w', r'⟩ <;>
      simp only [pass, wait, waitx, hw, ← hpass] <;> exact ⟨h.sleep hcur _, trivial,
        fun _ => trivial⟩

/-! ### Whole runs -/

variable {k : ℕ} {s s' u : Kernel k} {a a' : Act k}

/-- Where a process continues: at the same point, or in `waitx` for `wait`. -/
def Ctx.Alike (x y : Ctx) : Prop := x = y ∨ x = .wait ∧ ∃ w r, y = .waitx w r

/-- **Alike states of the kernel.** -/
structure Kernel.Alike (s u : Kernel k) : Prop where
  mem : s.mem.Alike u.mem
  cpu : s.cpu = u.cpu
  lock : s.lock = u.lock
  code : s.code = u.code
  ctx : ∀ p, (s.ctx p).Alike (u.ctx p)

/-- The same action, or a `waitx` for a `wait`. -/
def Replaces (a a' : Act k) : Prop := a = a' ∨ ∃ c w r, a = .wait c ∧ a' = .waitx c w r

namespace Kernel.Alike

lemma refl (s : Kernel k) : s.Alike s := ⟨.refl _, rfl, rfl, rfl, fun _ => .inl rfl⟩

lemma withMem (h : s.Alike u) {t t' : Ptable} (ht : t.Alike t') :
    Kernel.Alike { s with mem := t } { u with mem := t' } :=
  ⟨ht, h.cpu, h.lock, h.code, h.ctx⟩

lemma sched (h : s.Alike u) {t t' : Ptable} (ht : t.Alike t') (c : Fin k) (p : Slot) {cx cx' : Ctx}
    (hcx : cx.Alike cx') : (s.sched c p cx t).Alike (u.sched c p cx' t') := by
  refine ⟨ht, h.cpu, rfl, h.code, fun q => ?_⟩
  rcases eq_or_ne q p with rfl | hq
  · simpa only [Kernel.sched, update_self] using hcx
  · simpa only [Kernel.sched, update_of_ne hq] using h.ctx q

lemma goto (h : s.Alike u) {t t' : Ptable} (ht : t.Alike t') (p : Slot) (co : Code) :
    (s.goto p co t).Alike (u.goto p co t') :=
  ⟨ht, h.cpu, h.lock, by rw [Kernel.goto, Kernel.goto, h.code], h.ctx⟩

lemma waitEnd (h : s.Alike u) (c : Fin k) (p : Slot) {cx cx' : Ctx} (hcx : cx.Alike cx')
    {x y : Ptable × WaitResult} (hmem : x.1.Alike y.1) (hval : x.2.value = y.2.value) :
    (s.waitEnd c p cx x).Alike (u.waitEnd c p cx' y) := by
  obtain ⟨t, r⟩ := x
  obtain ⟨t', r'⟩ := y
  cases r <;> cases r' <;> cases hval
  · exact h.sched hmem c p hcx
  · exact ⟨hmem, h.cpu, rfl, h.code, h.ctx⟩

lemma enter_eq (h : s.Alike u) (c : Fin k) : s.enter c = u.enter c := by
  rw [Kernel.enter, Kernel.enter, h.lock, h.cpu]

lemma enterUser_eq (h : s.Alike u) (c : Fin k) : s.enterUser c = u.enterUser c := by
  rw [Kernel.enterUser, Kernel.enterUser, h.enter_eq, h.code]

lemma runs_eq (h : s.Alike u) (c : Fin k) : s.runs c = u.runs c := by
  rw [Kernel.runs, Kernel.runs, h.lock, h.cpu]

end Kernel.Alike

variable {c : Fin k}

/-- A process that a CPU runs is in use. -/
lemma Wf.inUse (hw : Wf s) {p : Slot} (hp : (s.cpu c).proc = some p) (hl : s.lock ≠ .atSched c) :
    (s.mem.proc p).state ≠ .unused := by
  rw [hw.onCpu c p hp hl]
  decide

lemma Wf.enterUser_inUse (hw : Wf s) {p : Slot} (hp : s.enterUser c = some p) :
    (s.mem.proc p).state ≠ .unused := by
  obtain ⟨hl, hp, -⟩ := enterUser_eq_some.mp hp
  exact hw.inUse hp (by simp [hl])

/-- An iteration of `scheduler`. -/
lemma dispatch_alike (h : s.Alike u) (c : Fin k) : (s.dispatch c).Alike (u.dispatch c) := by
  simp only [Kernel.dispatch, scheduler, h.mem.fssPickGroup_eq]
  cases hg : fssPickGroup u.mem with
  | none => exact h.withMem h.mem
  | some g =>
    obtain ⟨hmem, hp⟩ := h.mem.fssPickProcInGroup g
    rcases hx : fssPickProcInGroup s.mem (some g) with ⟨t, r⟩
    rcases hy : fssPickProcInGroup u.mem (some g) with ⟨t', r'⟩
    rw [hx, hy] at hmem hp
    obtain rfl : r = r' := hp
    cases r with
    | none =>
      simp only [hx, hy]
      exact h.withMem hmem
    | some p =>
      obtain ⟨ht, hrun, -⟩ := fssPickProcInGroup_some hx
      simp only [hx, hy]
      refine ⟨hmem.update ?_ fun x => { x with state := .running }, by simp only [h.cpu], rfl,
        h.code, h.ctx⟩
      simp [ht, hrun]

lemma resume_alike (hw : Wf s) (h : s.Alike u) {p : Slot} (hl : s.lock = .atProc c)
    (hp : (s.cpu c).proc = some p) : (s.resume c p).Alike (u.resume c p) := by
  have huse := hw.inUse hp (by simp [hl])
  have hend := h.mem.sleepEnd huse
  have huse' : ((sleepEnd s.mem p).proc p).state ≠ .unused := by simpa [sleepEnd] using huse
  have hfree : ∀ {t t' : Ptable}, t.Alike t' →
      Kernel.Alike { s with mem := t, lock := .free } { u with mem := t', lock := .free } :=
    fun ht => ⟨ht, h.cpu, rfl, h.code, h.ctx⟩
  rcases h.ctx p with hx | ⟨hx, w, r, hy⟩
  · unfold Kernel.resume
    rw [← hx]
    cases s.ctx p with
    | forkret | yield => exact hfree h.mem
    | sleep => exact hfree hend
    | wait =>
      obtain ⟨hmem, hval, -⟩ := pass_alike hend huse' none none
      exact h.waitEnd c p (.inl rfl) hmem hval
    | waitx w r =>
      obtain ⟨hmem, hval, -⟩ := pass_alike hend huse' (some (w, r)) (some (w, r))
      exact h.waitEnd c p (.inl rfl) hmem hval
  · unfold Kernel.resume
    rw [hx, hy]
    obtain ⟨hmem, hval, -⟩ := pass_alike hend huse' none (some (w, r))
    exact h.waitEnd c p (.inr ⟨rfl, w, r, rfl⟩) hmem hval

lemma fork_alike (hw : Wf s) (h : s.Alike u) {p : Slot} {ok : Bool} (hp : s.runs c = some p)
    (hs : s.fork p ok = some s') : ∃ u', u.fork p ok = some u' ∧ s'.Alike u' := by
  obtain ⟨-, hl, hcpu⟩ := runs_eq_some.mp hp
  have huse := hw.inUse hcpu hl
  unfold Kernel.fork at hs ⊢
  rw [← h.code, ← h.lock]
  cases hc : s.code p with
  | user =>
    rw [hc] at hs
    simp only [Option.ite_none_right_eq_some] at hs
    obtain ⟨hfree, hs⟩ := hs
    simp only [hfree, if_true]
    obtain ⟨hmem, hnp⟩ := h.mem.allocproc
    rcases hx : allocproc s.mem with ⟨t, r⟩
    rcases hy : allocproc u.mem with ⟨t', r'⟩
    rw [hx, hy] at hmem hnp
    obtain rfl : r = r' := hnp
    rw [hx] at hs
    cases r with
    | none =>
      cases hs
      exact ⟨_, rfl, hmem, h.cpu, hfree, rfl, h.ctx⟩
    | some np =>
      cases hs
      exact ⟨_, rfl, h.goto hmem _ _⟩
  | fork pt np =>
    have hemb : (s.mem.proc np).state ≠ .unused := by
      rw [(hw.forking p pt np hc).2]
      decide
    have hfail : (forkFail s.mem np).Alike (forkFail u.mem np) :=
      h.mem.update hemb fun x => { x with state := .unused }
    rw [hc] at hs
    cases pt with
    | allocated =>
      cases ok
      · cases hs
        exact ⟨_, rfl, h.goto hfail _ _⟩
      · cases hs
        refine ⟨_, rfl, h.mem, h.cpu, h.lock, by simp only [Kernel.goto, h.code], fun q => ?_⟩
        rcases eq_or_ne q np with rfl | hq
        · simp only [update_self]
          exact .inl rfl
        · simpa only [update_of_ne hq] using h.ctx q
    | stacked =>
      cases ok
      · cases hs
        exact ⟨_, rfl, h.goto hfail _ _⟩
      · cases hs
        exact ⟨_, rfl, h.goto h.mem _ _⟩
    | copied =>
      cases hs
      exact ⟨_, rfl, h.goto (h.mem.update hemb fun x => { x with parent := some p }) _ _⟩
    | parented =>
      cases hs
      refine ⟨_, rfl, h.goto ?_ _ _⟩
      rw [forkGid, forkGid, ← h.mem.proc_eq huse]
      exact h.mem.update hemb fun x => { x with gid := (s.mem.proc p).gid }
    | gidCopied =>
      cases hs
      refine ⟨_, rfl, h.goto ?_ _ _⟩
      rw [forkEnsure, forkEnsure, ← h.mem.proc_eq hemb]
      exact (h.mem.fssGroupEnsure _).1
    | ensured =>
      simp only [Option.ite_none_right_eq_some] at hs
      obtain ⟨hfree, hs⟩ := hs
      simp only [hfree, if_true]
      cases hs
      exact ⟨_, rfl, h.goto (h.mem.update hemb fun x => { x with state := .runnable }) _ _⟩

/-- **Alike states go to alike states**, also if a `wait` is replaced by a `waitx`. -/
theorem alike_step (hw : Wf s) (h : s.Alike u) (ha : Replaces a a') (hs : step s a = some s') :
    ∃ u', step u a' = some u' ∧ s'.Alike u' := by
  rcases ha with rfl | ⟨c, w, r, rfl, rfl⟩
  · cases a with
    | userinit =>
      simp only [step, Option.ite_none_right_eq_some, Option.some.injEq] at hs ⊢
      obtain ⟨⟨hl, hi⟩, rfl⟩ := hs
      exact ⟨_, ⟨⟨h.lock ▸ hl, h.mem.initproc ▸ hi⟩, rfl⟩, h.withMem h.mem.userinit⟩
    | dispatch c =>
      simp only [step, Option.ite_none_right_eq_some, Option.some.injEq] at hs ⊢
      obtain ⟨⟨hl, hc⟩, rfl⟩ := hs
      exact ⟨_, ⟨⟨h.lock ▸ hl, h.cpu ▸ hc⟩, rfl⟩, dispatch_alike h c⟩
    | resume c =>
      simp only [step, Option.ite_none_right_eq_some, Option.map_eq_some_iff] at hs ⊢
      obtain ⟨hl, p, hp, rfl⟩ := hs
      exact ⟨_, ⟨h.lock ▸ hl, p, h.cpu ▸ hp, rfl⟩, resume_alike hw h hl hp⟩
    | ret c =>
      simp only [step, Option.ite_none_right_eq_some, Option.map_eq_some_iff] at hs ⊢
      obtain ⟨hl, g, hg, rfl⟩ := hs
      refine ⟨_, ⟨h.lock ▸ hl, g, h.cpu ▸ hg, rfl⟩, ?_, by simp only [Kernel.ret, h.cpu], rfl,
        h.code, h.ctx⟩
      simp only [Kernel.ret, charge, h.mem.gtable]
      exact h.mem.setGroup _ _
    | yield c =>
      simp only [step, Option.map_eq_some_iff, ← h.enter_eq] at hs ⊢
      obtain ⟨p, hp, rfl⟩ := hs
      obtain ⟨hl, hcpu⟩ := enter_eq_some.mp hp
      have huse := hw.inUse hcpu (by simp [hl])
      exact ⟨_, ⟨p, hp, rfl⟩, h.sched (h.mem.update huse fun x => { x with state := .runnable }) c
        p (.inl rfl)⟩
    | sleep c o =>
      simp only [step, Option.map_eq_some_iff, ← h.enterUser_eq] at hs ⊢
      obtain ⟨p, hp, rfl⟩ := hs
      exact ⟨_, ⟨p, hp, rfl⟩, h.sched (h.mem.sleep (hw.enterUser_inUse hp) _) c p (.inl rfl)⟩
    | exit c =>
      simp only [step, Option.map_eq_some_iff, Option.filter_eq_some_iff, ← h.enterUser_eq,
        ← h.mem.initproc] at hs ⊢
      obtain ⟨p, ⟨hp, hi⟩, rfl⟩ := hs
      exact ⟨_, ⟨p, ⟨hp, hi⟩, rfl⟩, h.sched (h.mem.exit (hw.enterUser_inUse hp)) c p (h.ctx p)⟩
    | wait c =>
      simp only [step, Option.map_eq_some_iff, ← h.enterUser_eq] at hs ⊢
      obtain ⟨p, hp, rfl⟩ := hs
      obtain ⟨hmem, hval, -⟩ := pass_alike h.mem (hw.enterUser_inUse hp) none none
      exact ⟨_, ⟨p, hp, rfl⟩, h.waitEnd c p (.inl rfl) hmem hval⟩
    | waitx c w r =>
      simp only [step, Option.map_eq_some_iff, ← h.enterUser_eq] at hs ⊢
      obtain ⟨p, hp, rfl⟩ := hs
      obtain ⟨hmem, hval, -⟩ := pass_alike h.mem (hw.enterUser_inUse hp) (some (w, r)) (some (w, r))
      exact ⟨_, ⟨p, hp, rfl⟩, h.waitEnd c p (.inl rfl) hmem hval⟩
    | fork c ok =>
      simp only [step, Option.bind_eq_some_iff, ← h.runs_eq] at hs ⊢
      obtain ⟨p, hp, hs⟩ := hs
      obtain ⟨u', hu', h'⟩ := fork_alike hw h hp hs
      exact ⟨u', ⟨p, hp, hu'⟩, h'⟩
    | kill c pid =>
      simp only [step, Option.map_eq_some_iff, ← h.enterUser_eq] at hs ⊢
      obtain ⟨p, hp, rfl⟩ := hs
      exact ⟨_, ⟨p, hp, rfl⟩, h.withMem (h.mem.kill pid).1⟩
    | trap c =>
      simp only [step, Option.map_eq_some_iff, Option.filter_eq_some_iff, ← h.runs_eq,
        ← h.code] at hs ⊢
      obtain ⟨p, ⟨hp, hc⟩, rfl⟩ := hs
      obtain ⟨-, hl, hcpu⟩ := runs_eq_some.mp hp
      have hmem := h.mem.update (hw.inUse hcpu hl) fun x => { x with killed := true }
      exact ⟨_, ⟨p, ⟨hp, hc⟩, rfl⟩, hmem, h.cpu, h.lock, rfl, h.ctx⟩
    | setgroup c pid gid =>
      simp only [step, Option.map_eq_some_iff, ← h.enterUser_eq] at hs ⊢
      obtain ⟨p, hp, rfl⟩ := hs
      exact ⟨_, ⟨p, hp, rfl⟩, h.withMem (h.mem.setgroupK pid gid).1⟩
    | wakeup ch =>
      simp only [step, Option.ite_none_right_eq_some, Option.some.injEq] at hs ⊢
      obtain ⟨hl, rfl⟩ := hs
      exact ⟨_, ⟨h.lock ▸ hl, rfl⟩, h.withMem (h.mem.wakeup1 _)⟩
    | tick =>
      simp only [step, Option.ite_none_right_eq_some, Option.some.injEq] at hs ⊢
      obtain ⟨hl, rfl⟩ := hs
      exact ⟨_, ⟨h.lock ▸ hl, rfl⟩, h.withMem h.mem.tickAccounting⟩
  · simp only [step, Option.map_eq_some_iff, ← h.enterUser_eq] at hs ⊢
    obtain ⟨p, hp, rfl⟩ := hs
    obtain ⟨hmem, hval, -⟩ := pass_alike h.mem (hw.enterUser_inUse hp) none (some (w, r))
    exact ⟨_, ⟨p, hp, rfl⟩, h.waitEnd c p (.inr ⟨rfl, w, r, rfl⟩) hmem hval⟩

/-! ### What the calls return -/

/-- What a call returns: nothing yet, or its value and what it stores through its pointers. -/
abbrev Result : Type := Option (ℤ × Option UInt32 × Option UInt32)

def WaitResult.result : WaitResult → Result
  | .sleeps => none
  | .returns v w r => some (v, w, r)

/-- The function that a process sleeps in, if it is `wait` or `waitx`. -/
def Ctx.pass? : Ctx → Option (Option (Bool × Bool))
  | .wait => some none
  | .waitx w r => some (some (w, r))
  | _ => none

/-- **What a step returns to its caller**, for `fork`, `wait`, `waitx`, `kill` and `setgroup_k`. -/
def result (s : Kernel k) : Act k → Result
  | .wait c => (s.enterUser c).bind fun p => (pass none s.mem p).2.result
  | .waitx c w r => (s.enterUser c).bind fun p => (pass (some (w, r)) s.mem p).2.result
  | .resume c =>
    if s.lock = .atProc c then
      (s.cpu c).proc.bind
      fun p => (s.ctx p).pass?.bind fun f => (pass f (sleepEnd s.mem p) p).2.result
    else none
  | .fork c ok =>
    (s.runs c).bind fun p =>
      match s.code p with
      | .user => if (allocproc s.mem).2 = none then some (-1, none, none) else none
      | .fork .allocated _ | .fork .stacked _ => if ok then none else some (-1, none, none)
      | .fork .ensured np => some ((s.mem.proc np).pid, none, none)
      | _ => none
  | .kill _ pid => some ((kill s.mem pid).2, none, none)
  | .setgroup _ pid gid => some ((setgroupK s.mem pid gid).2, none, none)
  | _ => none

/-- The step is a pass of a `wait` that has been replaced. -/
def OfReplaced (s u : Kernel k) (a a' : Act k) : Prop :=
  a ≠ a' ∨ ∃ c p, a = .resume c ∧ (s.cpu c).proc = some p ∧ s.ctx p ≠ u.ctx p

lemma WaitResult.result_fst (x : WaitResult) : x.result.map Prod.fst = x.value := by
  cases x <;> rfl

/-- A pass returns the same value, and the same times if it is the same function. -/
lemma pass_result {t u : Ptable} (h : t.Alike u) {cur : Slot} (hcur : (t.proc cur).state ≠ .unused)
    (f f' : Option (Bool × Bool)) :
    (pass f t cur).2.result.map Prod.fst = (pass f' u cur).2.result.map Prod.fst ∧
      (f = f' → (pass f t cur).2.result = (pass f' u cur).2.result) := by
  obtain ⟨-, hval, heq⟩ := pass_alike h hcur f f'
  rw [WaitResult.result_fst, WaitResult.result_fst]
  exact ⟨hval, fun hf => by rw [heq hf]⟩

lemma result_resume (hw : Wf s) (h : s.Alike u) (c : Fin k) :
    (result s (.resume c)).map Prod.fst = (result u (.resume c)).map Prod.fst ∧
      (¬OfReplaced s u (.resume c) (.resume c) → result s (.resume c) = result u (.resume c)) := by
  simp only [result, ← h.lock, ← h.cpu]
  split
  · next hl =>
    cases hp : (s.cpu c).proc with
    | none => exact ⟨rfl, fun _ => rfl⟩
    | some p =>
      have huse := hw.inUse hp (by simp [hl])
      have hend := h.mem.sleepEnd huse
      have huse' : ((sleepEnd s.mem p).proc p).state ≠ .unused := by simpa [sleepEnd] using huse
      rcases h.ctx p with hx | ⟨hx, w, r, hy⟩
      · simp only [Option.bind_some, ← hx]
        cases (s.ctx p).pass? with
        | none => exact ⟨rfl, fun _ => rfl⟩
        | some f =>
          obtain ⟨hval, heq⟩ := pass_result hend huse' f f
          exact ⟨hval, fun _ => heq rfl⟩
      · simp only [Option.bind_some, hx, hy, Ctx.pass?]
        refine ⟨(pass_result hend huse' none (some (w, r))).1,
          fun hsame => absurd (.inr ⟨c, p, rfl, hp, ?_⟩) hsame⟩
        rw [hx, hy]
        simp
  · exact ⟨rfl, fun _ => rfl⟩

lemma result_fork (h : s.Alike u) (c : Fin k) (ok : Bool) :
    result s (.fork c ok) = result u (.fork c ok) := by
  simp only [result, ← h.runs_eq, ← h.code, ← h.mem.allocproc.2]
  cases hp : s.runs c with
  | none => rfl
  | some p =>
    simp only [Option.bind_some]
    cases hc : s.code p with
    | user => rfl
    | fork pt np =>
      have hpid : (s.mem.proc np).pid = (u.mem.proc np).pid := (h.mem.proc np).pid
      cases pt <;> simp only [hpid]

/-- **In alike states a call returns the same**, a pass of a replaced `wait` up to the times it
stores. -/
lemma result_alike (hw : Wf s) (h : s.Alike u) (ha : Replaces a a') :
    (result s a).map Prod.fst = (result u a').map Prod.fst ∧
    (¬OfReplaced s u a a' → result s a = result u a') := by
  have hpass : ∀ (c : Fin k) (f f' : Option (Bool × Bool)),
      let x := (s.enterUser c).bind fun p => (pass f s.mem p).2.result
      let y := (s.enterUser c).bind fun p => (pass f' u.mem p).2.result
      x.map Prod.fst = y.map Prod.fst ∧ (f = f' → x = y) := by
    intro c f f'
    cases hp : s.enterUser c with
    | none => exact ⟨rfl, fun _ => rfl⟩
    | some p => exact pass_result h.mem (hw.enterUser_inUse hp) f f'
  rcases ha with rfl | ⟨c, w, r, rfl, rfl⟩
  · have hsame : ∀ {x y : Result}, x = y → x.map Prod.fst = y.map Prod.fst ∧
        (¬OfReplaced s u a a → x = y) := by
      rintro x _ rfl
      exact ⟨rfl, fun _ => rfl⟩
    cases a with
    | wait c =>
      simp only [result, ← h.enterUser_eq]
      exact ⟨(hpass c none none).1, fun _ => (hpass c none none).2 rfl⟩
    | waitx c w r =>
      simp only [result, ← h.enterUser_eq]
      exact ⟨(hpass c (some (w, r)) (some (w, r))).1,
        fun _ => (hpass c (some (w, r)) (some (w, r))).2 rfl⟩
    | resume c => exact result_resume hw h c
    | fork c ok => exact hsame (result_fork h c ok)
    | kill c pid => exact hsame (by simp only [result, (h.mem.kill pid).2])
    | setgroup c pid gid => exact hsame (by simp only [result, (h.mem.setgroupK pid gid).2])
    | _ => exact hsame rfl
  · simp only [result, ← h.enterUser_eq]
    exact ⟨(hpass c none (some (w, r))).1, fun hsame => absurd (.inl (by simp)) hsame⟩

/-! ### The comparison -/

/-- The entries of two tables are the same, other than the time counters of the entry `z`. -/
def SameButTimes (z : Slot) (t u : Ptable) : Prop :=
  u = t.setProc z { t.proc z with
    rtime := (u.proc z).rtime, wtime := (u.proc z).wtime, stime := (u.proc z).stime }

/-- **`waitx` agrees with `wait`.** One pass of the two functions has the same outcome.  If a child
is reaped, `waitx` stores its times through the pointers that are not null, and the two tables
differ in the time counters of the entry that is freed.  And if calls of `wait` are replaced by
calls of `waitx` in a run, every later call returns what it returned before, and `getgroup_k`
also. -/
theorem waitx_agrees :
    (∀ (t : Ptable) (cur : Slot) (w r : Bool), (wait t cur).2.value = (waitx t cur w r).2.value ∧
      ((∃ z, waitPass t cur = .reap z ∧
          (waitx t cur w r).2 = .returns (t.proc z).pid (if w then some (t.proc z).wtime else none)
            (if r then some (t.proc z).rtime else none) ∧
          SameButTimes z (wait t cur).1 (waitx t cur w r).1) ∨
        (∀ z, waitPass t cur ≠ .reap z) ∧ wait t cur = waitx t cur w r)) ∧
    ∀ (k : ℕ) (s t : Kernel k) (as as' : List (Act k)), Reachable step (boot k) s →
      List.Forall₂ Replaces as as' → exec step s as = some t →
      ∃ t', exec step s as' = some t' ∧ (∀ pid, getgroupK t.mem pid = getgroupK t'.mem pid) ∧
        List.Forall₂ (fun e e' => (result e.1 e.2).map Prod.fst = (result e'.1 e'.2).map Prod.fst ∧
          (¬OfReplaced e.1 e'.1 e.2 e'.2 → result e.1 e.2 = result e'.1 e'.2) ∧
          ∀ pid, getgroupK e.1.mem pid = getgroupK e'.1.mem pid) (traceOf step s as)
            (traceOf step s as') := by
  refine ⟨fun t cur w r => ?_, fun k s t as as' hs hA h => ?_⟩
  · cases hw : waitPass t cur with
    | reap z =>
      simp only [wait, waitx, hw]
      refine ⟨rfl, .inl ⟨z, rfl, rfl, ?_⟩⟩
      simp only [SameButTimes, Proc.reapWaitx, setProc_proc_self]
      simp [Ptable.setProc]
    | fail | sleep =>
      simp only [wait, waitx, hw]
      exact ⟨trivial, .inr ⟨by simp, trivial⟩⟩
  · obtain ⟨t', ht', hR, hall⟩ := exec_related (I := Wf) (R := Kernel.Alike) (A := Replaces)
      (fun _ _ _ hw hs => hw.step (trans_of_step hs))
      (fun _ _ _ _ _ hw hR ha hs => alike_step hw hR ha hs)
      (wf_of_reachable hs) (.refl s) hA h
    refine ⟨t', ht', hR.mem.getgroupK_eq, hall.imp fun e e' he => ?_⟩
    obtain ⟨hw, hR, ha⟩ := he
    exact ⟨(result_alike hw hR ha).1, (result_alike hw hR ha).2, hR.mem.getgroupK_eq⟩

/-- Init forks and waits; the child exits. -/
def childExits (c : Fin 1) (waits : Act 1) : List (Act 1) :=
  [.userinit, .dispatch c, .resume c] ++ List.replicate 7 (.fork c true) ++
    waits :: [.ret c, .dispatch c, .resume c, .exit c, .ret c, .dispatch c, .resume c]

/-- `fork` and `wait` return the pid 2 of the child, and so does `waitx`. -/
theorem waitx_agrees_childExits : ∃ t t', exec step (boot 1) (childExits 0 (.wait 0)) = some t ∧
    exec step (boot 1) (childExits 0 (.waitx 0 true true)) = some t' ∧
    (∀ pid, getgroupK t.mem pid = getgroupK t'.mem pid) ∧
    (traceOf step (boot 1) (childExits 0 (.wait 0))).filterMap
      (fun e => (result e.1 e.2).map Prod.fst) = [2, 2] ∧
    List.Forall₂ (fun e e' => (result e.1 e.2).map Prod.fst = (result e'.1 e'.2).map Prod.fst)
      (traceOf step (boot 1) (childExits 0 (.wait 0)))
      (traceOf step (boot 1) (childExits 0 (.waitx 0 true true))) := by
  obtain ⟨t, ht, hpids⟩ : ∃ t, exec step (boot 1) (childExits 0 (.wait 0)) = some t ∧
      (traceOf step (boot 1) (childExits 0 (.wait 0))).filterMap
        (fun e => (result e.1 e.2).map Prod.fst) = [2, 2] := by
    decide +kernel
  have hsame : ∀ as : List (Act 1), List.Forall₂ Replaces as as := fun as =>
    List.forall₂_same.mpr fun _ _ => .inl rfl
  have hA : List.Forall₂ Replaces (childExits 0 (.wait 0)) (childExits 0 (.waitx 0 true true)) :=
    List.rel_append (hsame _) (.cons (.inr ⟨0, true, true, rfl, rfl⟩) (hsame _))
  obtain ⟨t', ht', hgroups, hall⟩ := waitx_agrees.2 1 (boot 1) t _ _ ⟨[], .nil _⟩ hA ht
  exact ⟨t, t', ht, ht', hgroups, hpids, hall.imp fun _ _ he => he.1⟩

end Xv6
