import Xv6.Fs.Journal

/-!
The log as a state machine (`begin_op`, `log_write`, `end_op`).

`lh` is the list of the blocks that were passed to `log_write` since the last commit.
`commit` reads and clears it without `log.lock`, which is safe because there is no
operation under way; and whoever sleeps in `begin_op` is woken by every change that
could let it go on.

* `Records`: the header lists the blocks of some `log_write`s, each once.
* `Phase.recording`, `Phase.erased`: the points of `commit` before the header is
  written to the disk, and those after `lh.n = 0`.
* `Ledger`: what holds of the header and of the sleepers at each point; it says nothing
  about the disk.
* `log_state_machine`: what holds whenever `log.lock` is free.
-/

namespace Xv6.Fs

open Transition Function

variable {n : ℕ} {L : Layout} {d₀ : Disk} {j : Journal n} {s s' : Machine n}

/-- The header lists exactly the blocks of the `log_write`s, each once. -/
structure Records (lh : List ℕ) (es : List Entry) : Prop where
  nodup : lh.Nodup
  mem : ∀ b, b ∈ lh ↔ ∃ e ∈ es, e.blockno = b

lemma Records.nil : Records [] [] := ⟨List.nodup_nil, by simp⟩

/-- An empty header means that nothing was logged. -/
lemma Records.eq_nil {es : List Entry} (h : Records [] es) : es = [] := by
  refine List.eq_nil_iff_forall_not_mem.mpr fun e he => ?_
  have hmem : e.blockno ∈ ([] : List ℕ) := (h.mem e.blockno).mpr ⟨e, he, rfl⟩
  simp at hmem

/-- `log_write` adds its block to the header. -/
lemma Records.absorb {lh : List ℕ} {es : List Entry} (h : Records lh es) (e : Entry) :
    Records (absorb lh e.blockno) (es ++ [e]) := by
  refine ⟨nodup_absorb h.nodup _, fun b => ?_⟩
  rw [mem_absorb, h.mem b]
  constructor
  · rintro (⟨f, hf, hb⟩ | rfl)
    · exact ⟨f, List.mem_append_left _ hf, hb⟩
    · exact ⟨e, by simp, rfl⟩
  · rintro ⟨f, hf, hb⟩
    rcases List.mem_append.mp hf with hf | hf
    · exact .inl ⟨f, hf, hb⟩
    · rw [List.mem_singleton.mp hf] at hb
      exact .inr hb.symm

/-- The points of `commit` up to the disk write of the first `write_head`. -/
def Phase.recording : Phase → Bool
  | .loop .writeLog _ | .loopLog .writeLog _ _ | .loopBoth .writeLog _ _ _
  | .loopCopied .writeLog _ _ _ | .loopLast .writeLog _ _ | .writeHead true | .fillHead true _ =>
    true
  | _ => false

/-- The points after `lh.n = 0`. -/
def Phase.erased : Phase → Bool
  | .writeHead false | .fillHead false _ | .wroteHead false _ | .finish => true
  | _ => false

/-- The header against the journal, and the sleepers. -/
structure Ledger (j : Journal n) (s : Machine n) : Prop where
  asleep : ∀ t, s.mode t = .asleep → s.log.full = true
  idle : (∀ t w p, s.mode t ≠ .busy w p) → s.log.outstanding = 0 → s.log.lh = []
  records : (∀ t w p, s.mode t = .busy w p → p.recording = true) → Records s.log.lh j.opened
  opened : ∀ t w p, s.mode t = .busy w p → p.recording = false → j.opened = []
  erased : ∀ t w p, s.mode t = .busy w p → p.erased = true → s.log.lh = []

variable {w : Caller}

namespace Ledger

lemma powerOn (d : Disk) (hj : j.opened = []) : Ledger j (powerOn d : Machine n) := by
  refine ⟨fun t h => ?_, fun _ _ => rfl, fun _ => hj ▸ .nil, fun _ _ _ _ _ => hj,
    fun _ _ _ _ _ => rfl⟩
  simp only [Fs.powerOn] at h
  split at h <;> cases h

/-- Nobody enters or leaves `commit`, and the header stays. -/
lemma frame (h : Ledger j s) {j' : Journal n}
    (hmode : ∀ u w p, s'.mode u = .busy w p ↔ s.mode u = .busy w p)
    (hlh : s'.log.lh = s.log.lh) (hj : j'.opened = j.opened)
    (hout : s'.log.outstanding = 0 → s.log.outstanding = 0)
    (hasleep : ∀ u, s'.mode u = .asleep → s'.log.full = true) : Ledger j' s' := by
  refine ⟨hasleep, fun hn ho => ?_, fun hp => ?_, fun u w p hu hp => ?_, fun u w p hu hp => ?_⟩
  · rw [hlh]
    exact h.idle (fun u w p hu => hn u w p ((hmode u w p).mpr hu)) (hout ho)
  · rw [hlh, hj]
    exact h.records fun u w p hu => hp u w p ((hmode u w p).mpr hu)
  · rw [hj]
    exact h.opened u w p ((hmode u w p).mp hu) hp
  · rw [hlh]
    exact h.erased u w p ((hmode u w p).mp hu) hp

/-- One process is in `commit` or `recover_from_log`, at the point `q`. -/
lemma of_busy {t : Tid n} {q : Phase} (ho : Ops s.log s.mode) (hm : s.mode t = .busy w q)
    (hasleep : ∀ u, s.mode u = .asleep → s.log.full = true)
    (hrec : q.recording = true → Records s.log.lh j.opened)
    (hopen : q.recording = false → j.opened = []) (her : q.erased = true → s.log.lh = []) :
    Ledger j s := by
  have hq : ∀ u w' p, s.mode u = .busy w' p → p = q := by
    intro u w' p hu
    obtain rfl := ho.unique u t _ _ _ _ hu hm
    rw [hm] at hu
    cases hu
    rfl
  refine ⟨hasleep, fun hn => absurd hm (hn t w q), fun hp => hrec (hp t w q hm), ?_, ?_⟩
  · intro u w' p hu hp
    rw [hq u w' p hu] at hp
    exact hopen hp
  · intro u w' p hu hp
    rw [hq u w' p hu] at hp
    exact her hp

/-- Nobody is in `commit`, and nothing is logged. -/
lemma of_idle (hn : ∀ t w p, s.mode t ≠ .busy w p) (hlh : s.log.lh = []) (hj : j.opened = [])
    (hasleep : ∀ u, s.mode u ≠ .asleep) : Ledger j s := by
  refine ⟨fun u hu => absurd hu (hasleep u), fun _ _ => hlh, fun _ => ?_,
    fun t w p hm => absurd hm (hn t w p), fun t w p hm => absurd hm (hn t w p)⟩
  rw [hlh, hj]
  exact .nil

end Ledger

variable {p : Phase}

/-- While the log is written or recovered, whoever sleeps has to. -/
lemma full_of_busy {t u : Tid n} (ho : Ops s.log s.mode) (hm : s.mode t = .busy w p)
    (hu : s.mode u = .asleep) : s.log.full = true := by
  cases w with
  | commit => simp [Log.full, ho.commit t p hm]
  | recover =>
    have hne : u ≠ t := by
      rintro rfl
      rw [hm] at hu
      cases hu
    rw [ho.recover t p hm u hne] at hu
    cases hu

/-- After `wakeup` nobody sleeps, apart from a process that goes on to sleep. -/
lemma wakeup_ne_asleep (m : Tid n → Mode) (u : Tid n) : wakeup m u ≠ .asleep := by
  rw [wakeup]
  split
  · simp
  · assumption

lemma Ledger.records_of_busy (h : Ledger j s) (ho : Ops s.log s.mode) {t : Tid n}
    (hm : s.mode t = .busy w p) (hp : p.recording = true) : Records s.log.lh j.opened := by
  refine h.records fun u w' q hu => ?_
  obtain rfl := ho.unique u t _ _ _ _ hu hm
  rw [hm] at hu
  cases hu
  exact hp

lemma Reads.recording {lh : List ℕ} {q : BufId → Phase} {b : ℕ} (h : Reads L lh p b q) (i : BufId) :
    (q i).recording = p.recording ∧ (q i).erased = p.erased ∧ p.commits = false := by
  cases h with
  | readHead => exact ⟨rfl, rfl, rfl⟩
  | @slot k | @home k => cases k <;> exact ⟨rfl, rfl, rfl⟩
  | @writeHead first => cases first <;> exact ⟨rfl, rfl, rfl⟩

lemma Releases.recording {q : Phase} {i : BufId} (h : Releases p i q) :
    q.recording = p.recording ∧ q.erased = p.erased ∧ p.commits = false := by
  cases h with
  | @copied k | @last k => cases k <;> exact ⟨rfl, rfl, rfl⟩
  | committed | erased => exact ⟨rfl, rfl, rfl⟩

/-- A step of `commit` or `recover_from_log`. -/
lemma ledger_of_phaseTo (h : Ledger j s) (ho : Ops s.log s.mode) {t : Tid n}
    (hm : s.mode t = .busy w p) (hp : PhaseTo L s t w p s') : Ledger (j.observe s (.run t)) s' := by
  have ho' := ops_of_phaseTo ho hm hp
  have hobs : j.observe s (.run t)
      = if p.commits then { j with done := j.done ++ [j.opened], opened := [] } else j := by
    simp only [Journal.observe, commits, hm]
  -- a move to another point with the header and the journal as they are
  have hgoto : ∀ {q : Phase}, s'.mode t = .busy w q → s'.log.lh = s.log.lh →
      q.recording = p.recording ∧ q.erased = p.erased ∧ p.commits = false →
      Ledger (j.observe s (.run t)) s' := by
    rintro q hq hlh ⟨hrec, her, hcom⟩
    rw [hobs, hcom, if_neg (by simp)]
    refine .of_busy ho' hq (fun u hu => full_of_busy ho' hq hu) (fun hr => ?_) (fun hr => ?_)
      fun he => ?_
    · rw [hlh]
      exact h.records_of_busy ho hm (hrec ▸ hr)
    · exact h.opened t w p hm (hrec ▸ hr)
    · rw [hlh]
      exact h.erased t w p hm (her ▸ he)
  cases hp with
  | @read _ _ q _ _ i hr => exact hgoto (update_self ..) rfl (hr.recording i)
  | release hr => exact hgoto (update_self ..) rfl hr.recording
  | @write _ _ q i data x hw =>
    have hq : update s.mode t (.busy w q) t = .busy w q := update_self ..
    cases hw with
    | @copy k => cases k <;> exact hgoto hq rfl ⟨rfl, rfl, rfl⟩
    | @head first =>
      cases first with
      | false => exact hgoto hq rfl ⟨rfl, rfl, rfl⟩
      | true =>
        -- the header is on the disk, and the group is committed
        rw [hobs]
        exact .of_busy ho' hq (fun u hu => full_of_busy ho' hq hu) (by simp [Phase.recording])
          (fun _ => rfl) (by simp [Phase.erased])
  | decode =>
    have hq : update s.mode t (.busy w (.loop .installTrans 0)) t
        = .busy w (.loop .installTrans 0) := update_self ..
    rw [hobs]
    exact .of_busy ho' hq (fun u hu => full_of_busy ho' hq hu) (by simp [Phase.recording])
      (fun _ => h.opened t w _ hm rfl) (by simp [Phase.erased])
  | logged => exact hgoto (update_self ..) rfl ⟨rfl, rfl, rfl⟩
  | installed =>
    have hq : update s.mode t (.busy w (.writeHead false)) t
        = .busy w (.writeHead false) := update_self ..
    rw [hobs]
    exact .of_busy ho' hq (fun u hu => full_of_busy ho' hq hu) (by simp [Phase.recording])
      (fun _ => h.opened t w _ hm rfl) fun _ => rfl
  | endCommit =>
    rw [hobs]
    refine .of_idle (fun u w' q hu => ?_) (h.erased t _ _ hm rfl) (h.opened t _ _ hm rfl)
      fun u hu => ?_
    · rcases eq_or_ne u t with rfl | hne
      · simp at hu
      · simp only [update_of_ne hne, wakeup_eq_busy] at hu
        exact hne (ho.unique u t _ _ _ _ hu hm)
    · rcases eq_or_ne u t with rfl | hne
      · simp at hu
      · simp only [update_of_ne hne] at hu
        exact wakeup_ne_asleep _ u hu
  | endRecover =>
    rw [hobs]
    exact .of_idle (by simp) (h.erased t _ _ hm rfl) (h.opened t _ _ hm rfl) (by simp)

/-- The log only gets fuller by `log_write`. -/
lemma full_mono {l l' : Log} (hc : l.committing = true → l'.committing = true)
    (hlh : l.lh.length ≤ l'.lh.length) (ho : l.outstanding ≤ l'.outstanding) (h : l.full = true) :
    l'.full = true := by
  simp only [Log.full, Bool.or_eq_true, decide_eq_true_eq] at h ⊢
  rcases h with h | h
  · exact .inl (hc h)
  · have hmul := Nat.mul_le_mul_right MAXOPBLOCKS (Nat.add_le_add_right ho 1)
    exact .inr (by omega)

lemma length_le_absorb (lh : List ℕ) (b : ℕ) : lh.length ≤ (absorb lh b).length := by
  rw [absorb]
  split <;> simp

/-- A sleeper after a step of another process that moves only itself was one before. -/
lemma asleep_of_update {m : Tid n → Mode} {t u : Tid n} {v : Mode} (hv : v ≠ .asleep)
    (hu : update m t v u = .asleep) : m u = .asleep := by
  rcases eq_or_ne u t with rfl | hne
  · rw [update_self] at hu
    exact absurd hu hv
  · rwa [update_of_ne hne] at hu

theorem ledger_of_trans {a : Act n} (h : Ledger j s) (hs : Sound L s) (ht : Trans L s a s') :
    Ledger (j.observe s a) s' := by
  cases ht with
  | crash => exact .powerOn s.disk rfl
  | phase _ hm hp => exact ledger_of_phaseTo h hs.ops hm hp
  | lock | cached | fill | unref | bread | modify | brelse =>
    exact h.frame (fun _ _ _ => Iff.rfl) rfl rfl id h.asleep
  | @sleep t hm hf =>
    have hobs : j.observe s (.beginOp t) = j := if_pos hf
    rw [hobs]
    exact h.frame (update_eq_busy (by rcases hm with hm | hm <;> simp [hm]) (by simp)) rfl rfl id
      fun _ _ => hf
  | @beginOp t hm hf =>
    have hobs : (j.observe s (.beginOp t)).opened = j.opened := by
      simp [Journal.observe, hf]
    refine h.frame (update_eq_busy (by rcases hm with hm | hm <;> simp [hm]) (by simp)) rfl hobs
      (by simp) fun u hu => ?_
    -- nobody sleeps while an operation can begin
    have hold := h.asleep u (asleep_of_update (by simp) hu)
    simp [hf] at hold
  | wake hm | logCheck _ hm =>
    exact h.frame (update_eq_busy (by simp [hm]) (by simp)) rfl rfl id fun u hu =>
      h.asleep u (asleep_of_update (by simp) hu)
  | @logWrite t i b hm hb =>
    have hin : InOp (s.mode t) := by rw [hm]; trivial
    have hnot := hs.ops.not_busy hin
    have hnot' : ∀ u w p, update s.mode t .op u ≠ .busy w p := fun u w p hu =>
      hnot u w p ((update_eq_busy (by simp [hm]) (by simp) u w p).mp hu)
    have hobs : (j.observe s (.logWrite t)).opened
        = j.opened ++ [⟨j.cur t, b, (s.cache.buf i).data⟩] := by
      simp [Journal.observe, logged, hm, hb]
    refine ⟨fun u hu => ?_, fun _ ho => ?_, fun _ => ?_, fun u w p hu => absurd hu (hnot' u w p),
      fun u w p hu => absurd hu (hnot' u w p)⟩
    · have hfull := h.asleep u (asleep_of_update (by simp) hu)
      exact full_mono (l := s.log) id (length_le_absorb s.log.lh b) le_rfl hfull
    · have hpos : 0 < tally InOp s.mode := tally_pos hin
      rw [← hs.ops.outstanding] at hpos
      exact absurd ho (by simpa using hpos.ne')
    · rw [hobs]
      have hrec := h.records fun u w p hu => absurd hu (hnot u w p)
      exact hrec.absorb ⟨j.cur t, b, (s.cache.buf i).data⟩
  | @endLast t _ hm _ _ ho =>
    have hnot := hs.ops.not_busy (t := t) (by rw [hm]; trivial)
    have hrec := h.records fun u w p hu => absurd hu (hnot u w p)
    refine .of_busy (hs.ops.endLast hm ho _) (update_self ..)
      (fun u _ => by simp [Log.full]) (fun _ => hrec) (fun hp => ?_) fun hp => ?_
    · -- the commit has nothing to do
      rw [commitStart] at hp
      split at hp
      · simp [Phase.recording] at hp
      · rename_i hlen
        rw [List.length_eq_zero_iff.mp (Nat.eq_zero_of_not_pos hlen)] at hrec
        exact hrec.eq_nil
    · rw [commitStart] at hp
      split at hp
      · simp [Phase.erased] at hp
      · rename_i hlen
        exact List.length_eq_zero_iff.mp (Nat.eq_zero_of_not_pos hlen)
  | @endOp t _ hm _ _ ho =>
    refine h.frame (fun u w p => ?_) rfl rfl (fun hz => absurd hz ho) fun u hu => ?_
    · rw [← wakeup_eq_busy (m := s.mode)]
      exact update_eq_busy (by simp [hm]) (by simp) u w p
    · exact absurd (asleep_of_update (by simp) hu) (wakeup_ne_asleep _ u)

/-- **The ledger of every run.** -/
theorem ledger_of_run {tr : List (Machine n × Act n)} (hr : Run (step L) (powerOn d₀) tr s) :
    Sound L s ∧ Ledger (journal tr) s := by
  refine hr.snoc_induction (P := fun tr s => Sound L s ∧ Ledger (journal tr) s)
    ⟨sound_powerOn d₀, .powerOn d₀ rfl⟩ ?_
  intro tr s a s' _ h hs
  rw [journal_snoc]
  exact ⟨sound_of_trans h.1 (trans_of_step hs), ledger_of_trans h.2 h.1 (trans_of_step hs)⟩

/-- **The log as a state machine.**  Take any run of any number of processes, with any
disk and any crashes, to a state in which nobody is in `recover_from_log`.  Then
`committing` implies that no operation is outstanding; when there is neither a commit
nor an operation, the header is empty; while there is no commit, it lists exactly the
blocks passed to `log_write` since the last commit (or crash), each once; a process in
an operation, and so every caller of `log_write` and `end_op`, finds `committing` not
set; and a process sleeps in `begin_op` only if there is a commit or the log might get
too small. -/
theorem log_state_machine {tr : List (Machine n × Act n)} (hr : Run (step L) (powerOn d₀) tr s)
    (hrec : ∀ t p, s.mode t ≠ .busy .recover p) :
    (s.log.committing = true → s.log.outstanding = 0) ∧
      (s.log.outstanding = 0 → s.log.committing = false → s.log.lh = []) ∧
      (s.log.committing = false → s.log.lh.Nodup ∧
        ∀ b, b ∈ s.log.lh ↔ ∃ e ∈ (journal tr).opened, e.blockno = b) ∧
      (∀ t, InOp (s.mode t) → s.log.committing = false) ∧
      (∀ e ∈ tr, ∀ t, e.2 = .logWrite t → e.1.log.committing = false) ∧
      ∀ t, s.mode t = .asleep → s.log.committing = true ∨
        LOGSIZE < s.log.lh.length + (s.log.outstanding + 1) * MAXOPBLOCKS := by
  obtain ⟨hs, h⟩ := ledger_of_run hr
  -- a process in an operation is counted, so there is no commit
  have hop : ∀ {u : Machine n}, Sound L u → ∀ t, InOp (u.mode t) → u.log.committing = false := by
    intro u hu t hin
    by_contra hc
    have hz := hu.ops.committing (by simpa using hc)
    have hpos : 0 < tally InOp u.mode := tally_pos hin
    rw [← hu.ops.outstanding] at hpos
    omega
  have hquiet : s.log.committing = false → ∀ t w p, s.mode t ≠ .busy w p := by
    intro hc t w p hm
    cases w with
    | commit =>
      have hcom := hs.ops.commit t p hm
      simp [hc] at hcom
    | recover => exact hrec t p hm
  refine ⟨hs.ops.committing, fun ho hc => h.idle (hquiet hc) ho, fun hc => ?_, hop hs, ?_, ?_⟩
  · have hr := h.records fun t w p hm => absurd hm (hquiet hc t w p)
    exact ⟨hr.nodup, hr.mem⟩
  · rintro ⟨u, a⟩ he t rfl
    obtain ⟨tr₁, tr₂, rfl⟩ := List.append_of_mem he
    obtain ⟨u', h1, hstep, _⟩ := hr.split_cons
    have hin : InOp (u.mode t) := by
      cases trans_of_step hstep with
      | logWrite hm => rw [hm]; trivial
    exact hop (ledger_of_run h1).1 t hin
  · intro t hm
    have hfull := h.asleep t hm
    simpa [Log.full] using hfull

/-- `recover_from_log` with an empty log. -/
def recovery (t : Tid n) : List (Act n) :=
  [.run t, .cont t, .cont t, .run t, .cont t, .run t, .run t, .cont t, .cont t, .run t, .run t,
    .cont t, .run t]

/-- `bread`, `log_write` and `brelse`. -/
def logBlock (t : Tid n) (b : ℕ) (i : BufId) : List (Act n) :=
  [.bread t b, .cont t, .cont t, .logCheck t i, .logWrite t, .brelse t i, .cont t]

/-- Three operations are under way, one of them has logged a block, and a fourth process
has to wait. -/
def fourthWaits (t u v w : Tid 3) (i : BufId) : List (Act 3) :=
  List.flatten [recovery t, [.beginOp t, .beginOp u, .beginOp v], logBlock t 40 i, [.beginOp w]]

theorem log_state_machine_fourthWaits : ∃ s,
    exec (step mkfsLayout) (powerOn blankDisk) (fourthWaits 0 1 2 3 1) = some s ∧
    s.mode 3 = .asleep ∧ s.log.committing = false ∧ s.log.lh = [40] ∧
    (s.log.committing = true ∨
      LOGSIZE < s.log.lh.length + (s.log.outstanding + 1) * MAXOPBLOCKS) ∧
    ∀ b, b ∈ s.log.lh ↔ ∃ e ∈ (journal (traceOf (step mkfsLayout) (powerOn blankDisk)
      (fourthWaits 0 1 2 3 1))).opened, e.blockno = b := by
  obtain ⟨s, hs, h3, hc, hlh, h0, h1, h2⟩ :
      ∃ s, exec (step mkfsLayout) (powerOn blankDisk) (fourthWaits 0 1 2 3 1) = some s ∧
        s.mode 3 = .asleep ∧ s.log.committing = false ∧ s.log.lh = [40] ∧
        s.mode 0 = .op ∧ s.mode 1 = .op ∧ s.mode 2 = .op := by
    decide +kernel
  have hrec : ∀ t p, s.mode t ≠ .busy .recover p := by
    intro t p
    fin_cases t <;> simp [h0, h1, h2, h3]
  obtain ⟨_, _, hlist, _, _, hsleep⟩ := log_state_machine (run_traceOf hs) hrec
  exact ⟨s, hs, h3, hc, hlh, hsleep 3 h3, (hlist hc).2⟩

end Xv6.Fs
