import Xv6.Sync.Ide

/-!
The queue of the disk and its controller.

The queue has the buffers of the processes that wait, in the order in which they were appended.
The controller works on the command of its first buffer; from the time at which the command has
been carried out until `ideintr` takes the buffer off there is one interrupt, which is raised or
is being handled.

* `Queued`: the buffers of the queue.
* `Driven`: the controller and its interrupts.
-/

namespace Xv6.Sync

open Transition Xv6.Fs Ide Function

variable {P B : Type} {m m' : Mem P B} {lab lab' : P → Label B} {q : List B} {a : IdeAct P B}
  {e : Option (QueueEvent B)}

/-! ### The buffers of the queue -/

/-- The buffer of the queue that a process waits for. -/
def waitsFor : Label B → Option B
  | .rwStart b | .rwWait b => some b
  | _ => none

/-- What a process knows about its buffer: before it is appended there is something to do, and
the walk is on the queue. -/
def Place (m : Mem P B) (q : List B) : Label B → Prop
  | .rwScan b pp => ¬(m.buf b).Done ∧ m.qnext b = none ∧ ∀ x, pp = some x → x ∈ q
  | .rwStart b => b ∈ q
  | _ => True

/-- The queue is the list `q`. -/
structure Queued (m : Mem P B) (lab : P → Label B) (q : List B) : Prop where
  chain : Chain m.qnext m.idequeue q
  nodup : q.Nodup
  /-- A process has locked the buffer it calls `iderw` with. -/
  own : ∀ p b, (lab p).buf? = some b → m.owner b = some p
  waits : ∀ b ∈ q, ∃ p, waitsFor (lab p) = some b
  todo : ∀ b ∈ q, ¬(m.buf b).Done
  place : ∀ p, Place m q (lab p)

variable {b : B}

lemma buf?_of_waitsFor {l : Label B} (h : waitsFor l = some b) : l.buf? = some b := by
  cases l <;> cases h <;> rfl

variable {p : P} {l' : Label B}

namespace Queued

/-- The process that waits for a buffer of the queue. -/
lemma waiter (h : Queued m lab q) (hb : b ∈ q) (hp : m.owner b = some p) :
    waitsFor (lab p) = some b := by
  obtain ⟨r, hr⟩ := h.waits b hb
  have hown := h.own r b (buf?_of_waitsFor hr)
  rw [hp] at hown
  cases hown
  exact hr

/-- A process that has not appended its buffer. -/
lemma not_mem (h : Queued m lab q) (hp : m.owner b = some p) (hwaits : waitsFor (lab p) = none) :
    b ∉ q := by
  intro hb
  have hwaiter := h.waiter hb hp
  rw [hwaits] at hwaiter
  cases hwaiter

lemma head_mem (h : Queued m lab q) (hb : m.idequeue = some b) : b ∈ q := by
  have hhead := h.chain.head_eq
  rw [hb] at hhead
  exact List.mem_of_mem_head? hhead.symm

/-- The memory changes outside the queue. -/
lemma of_mem (h : Queued m lab q) (hqueue : m'.idequeue = m.idequeue)
    (hown : ∀ p b, (lab p).buf? = some b → m'.owner b = m.owner b)
    (hbuf : ∀ p b, (lab p).buf? = some b → m'.buf b = m.buf b)
    (hnext : ∀ p b, (lab p).buf? = some b → lab p ≠ .rwCheck b → m'.qnext b = m.qnext b) :
    Queued m' lab q := by
  refine ⟨?_, h.nodup, ?_, h.waits, ?_, ?_⟩
  · rw [hqueue]
    refine h.chain.congr fun b hb => ?_
    obtain ⟨p, hp⟩ := h.waits b hb
    refine hnext p b (buf?_of_waitsFor hp) fun hcheck => ?_
    rw [hcheck] at hp
    cases hp
  · intro p b hp
    rw [hown p b hp]
    exact h.own p b hp
  · intro b hb
    obtain ⟨p, hp⟩ := h.waits b hb
    rw [hbuf p b (buf?_of_waitsFor hp)]
    exact h.todo b hb
  · intro p
    have hplace := h.place p
    have hb := hbuf p
    have hn := hnext p
    generalize lab p = l at hplace hb hn
    cases l with
    | rwScan b pp =>
      rw [Place, hb b rfl, hn b rfl (by simp)]
      exact hplace
    | _ => exact hplace

variable [DecidableEq P]

/-- A process goes to another place, and the queue stays. -/
lemma relabel (h : Queued m lab q) (hown : ∀ b, l'.buf? = some b → m.owner b = some p)
    (hwaits : ∀ b ∈ q, waitsFor (lab p) = some b → waitsFor l' = some b) (hplace : Place m q l') :
    Queued m (update lab p l') q where
  chain := h.chain
  nodup := h.nodup
  own r b hr := by
    rcases eq_or_ne r p with rfl | hne
    · rw [update_self] at hr
      exact hown b hr
    · rw [update_of_ne hne] at hr
      exact h.own r b hr
  waits b hb := by
    obtain ⟨r, hr⟩ := h.waits b hb
    refine ⟨r, ?_⟩
    rcases eq_or_ne r p with rfl | hne
    · rw [update_self]
      exact hwaits b hb hr
    · rwa [update_of_ne hne]
  todo := h.todo
  place r := by
    rcases eq_or_ne r p with rfl | hne
    · rwa [update_self]
    · rw [update_of_ne hne]
      exact h.place r

/-- A process that waits for nothing goes to a place that says nothing about the queue. -/
lemma pass (h : Queued m lab q) (hwaits : waitsFor (lab p) = none)
    (hown : ∀ b, l'.buf? = some b → m.owner b = some p) (hplace : Place m q l') :
    Queued m (update lab p l') q := by
  refine h.relabel hown (fun b _ hb => ?_) hplace
  rw [hwaits] at hb
  cases hb

variable [DecidableEq B]

/-- A buffer is appended. -/
lemma link {pp : Option B} (h : Queued m lab q) (hp : lab p = .rwScan b pp)
    (hend : m.next pp = none) : Queued (m.link pp b) (update lab p (.rwStart b)) (q ++ [b]) := by
  have hplace := h.place p
  rw [hp] at hplace
  obtain ⟨hdone, hnext, hpp⟩ := hplace
  have hown : m.owner b = some p := h.own p b (hp ▸ rfl)
  have hb : b ∉ q := h.not_mem hown (hp ▸ rfl)
  have hbuf : (m.link pp b).buf = m.buf ∧ (m.link pp b).owner = m.owner := by
    cases pp <;> exact ⟨rfl, rfl⟩
  refine ⟨?_, ?_, ?_, ?_, ?_, ?_⟩
  · cases pp with
    | none =>
      have hq : q = [] := by
        have hhead := h.chain.head_eq
        rw [show m.idequeue = none from hend] at hhead
        exact List.head?_eq_none_iff.mp hhead.symm
      rw [hq]
      exact ⟨rfl, hnext⟩
    | some x =>
      exact h.chain.link h.nodup hb hnext (h.chain.getLast? (hpp x rfl) hend)
  · exact List.nodup_append.mpr ⟨h.nodup, List.nodup_singleton b, fun x hx y hy => by
      rw [List.mem_singleton.mp hy]
      rintro rfl
      exact hb hx⟩
  · intro r b' hr
    rw [hbuf.2]
    rcases eq_or_ne r p with rfl | hne
    · rw [update_self] at hr
      cases hr
      exact hown
    · rw [update_of_ne hne] at hr
      exact h.own r b' hr
  · intro b' hb'
    rcases List.mem_append.mp hb' with hb' | hb'
    · obtain ⟨r, hr⟩ := h.waits b' hb'
      have hne : r ≠ p := by
        rintro rfl
        rw [hp] at hr
        cases hr
      refine ⟨r, ?_⟩
      rwa [update_of_ne hne]
    · rw [List.mem_singleton.mp hb']
      refine ⟨p, ?_⟩
      rw [update_self]
      rfl
  · intro b' hb'
    rw [hbuf.1]
    rcases List.mem_append.mp hb' with hb' | hb'
    · exact h.todo b' hb'
    · rw [List.mem_singleton.mp hb']
      exact hdone
  · intro r
    rcases eq_or_ne r p with rfl | hne
    · rw [update_self]
      exact List.mem_append_right _ (List.mem_singleton_self b)
    · rw [update_of_ne hne]
      have hplace := h.place r
      have hown' := h.own r
      have hnot : ∀ b', m.owner b' = some r → waitsFor (lab r) = none → b' ∉ q := fun _ => h.not_mem
      generalize lab r = l at hplace hown' hnot
      cases l with
      | rwScan b' pp' =>
        obtain ⟨hdone', hnext', hpp'⟩ := hplace
        refine ⟨hbuf.1 ▸ hdone', ?_, fun x hx => List.mem_append_left _ (hpp' x hx)⟩
        cases pp with
        | none => exact hnext'
        | some x =>
          have hx : b' ≠ x := by
            rintro rfl
            exact hnot b' (hown' b' rfl) rfl (hpp b' rfl)
          change update m.qnext x (some b) b' = none
          rw [update_of_ne hx]
          exact hnext'
      | rwStart b' => exact List.mem_append_left _ hplace
      | _ => exact hplace

/-- The first buffer is taken off. -/
lemma pop (h : Queued m lab q) (hex : ∀ r, r ≠ p → ¬Critical (lab r)) (hp : lab p = .intrPop)
    (hb : m.idequeue = some b) :
    ∃ q', q = b :: q' ∧ Queued (m.pop b) (update lab p (.intrWake b)) q' := by
  cases q with
  | nil =>
    have hnil : m.idequeue = none := h.chain
    rw [hb] at hnil
    cases hnil
  | cons b₀ q =>
    obtain ⟨hhead, htail⟩ := h.chain
    rw [hb] at hhead
    cases hhead
    obtain ⟨hbq, hnodup⟩ := List.nodup_cons.mp h.nodup
    have hbuf : ∀ b' ∈ q, (m.pop b).buf b' = m.buf b' := by
      intro b' hb'
      refine update_of_ne ?_ ..
      rintro rfl
      exact hbq hb'
    refine ⟨q, rfl, htail, hnodup, ?_, ?_, ?_, ?_⟩
    · intro r b' hr
      rcases eq_or_ne r p with rfl | hne
      · rw [update_self] at hr
        cases hr
      · rw [update_of_ne hne] at hr
        exact h.own r b' hr
    · intro b' hb'
      obtain ⟨r, hr⟩ := h.waits b' (List.mem_cons_of_mem _ hb')
      have hne : r ≠ p := by
        rintro rfl
        rw [hp] at hr
        cases hr
      refine ⟨r, ?_⟩
      rwa [update_of_ne hne]
    · intro b' hb'
      rw [hbuf b' hb']
      exact h.todo b' (List.mem_cons_of_mem _ hb')
    · intro r
      rcases eq_or_ne r p with rfl | hne
      · rw [update_self]
        trivial
      · rw [update_of_ne hne]
        have hcritical := hex r hne
        generalize lab r = l at hcritical
        cases l <;> first | trivial | exact absurd trivial hcritical

end Queued

/-- How the queue changes. -/
def Shift : Option (QueueEvent B) → List B → List B → Prop
  | some (.append b), q, q' => q' = q ++ [b]
  | some (.pop b), q, q' => q = b :: q'
  | _, q, q' => q' = q

variable [DecidableEq B] [DecidableEq P]

lemma Queued.move (h : Queued m lab q) (hex : ∀ r, Critical (lab p) → r ≠ p → ¬Critical (lab r))
    (hm : Move m (lab p) m' l') :
    ∃ q', Queued m' (update lab p l') q' ∧ Shift (change (lab p) m) q q' := by
  have hown := h.own p
  have hplace := h.place p
  -- A process that leaves the code no longer has a buffer.
  have hleave : ∀ {l' : Label B}, l'.buf? = none → ∀ b, l'.buf? = some b → m.owner b = some p := by
    intro l' hnone b hb
    rw [hnone] at hb
    cases hb
  generalize hl : lab p = l at hm hown hplace hex
  have hpass : ∀ {l'}, waitsFor l = none → (∀ b, l'.buf? = some b → m.owner b = some p) →
      Place m q l' → Queued m (update lab p l') q := fun hwaits => h.pass (hl ▸ hwaits)
  have hstay : ∀ {m₁ : Mem P B}, m₁.idequeue = m.idequeue → m₁.owner = m.owner → m₁.buf = m.buf →
      m₁.qnext = m.qnext → Queued m₁ lab q := fun hq ho hb hn =>
    h.of_mem hq (fun _ _ _ => congrFun ho _) (fun _ _ _ => congrFun hb _)
      fun _ _ _ _ => congrFun hn _
  cases hm with
  | @rwAcquire b => exact ⟨q, hpass rfl hown trivial, rfl⟩
  | @check b hd =>
    have hb : m.owner b = some p := hown b rfl
    have hother : ∀ r b', (lab r).buf? = some b' → lab r ≠ .rwCheck b' → b' ≠ b := by
      rintro r b' hr hcheck rfl
      have hr' := h.own r b' hr
      rw [hb] at hr'
      cases hr'
      exact hcheck hl
    have hmem : Queued { m with qnext := update m.qnext b none } lab q :=
      h.of_mem rfl (fun _ _ _ => rfl) (fun _ _ _ => rfl) fun r b' hr hcheck =>
        update_of_ne (hother r b' hr hcheck) ..
    refine ⟨q, hmem.pass (hl ▸ rfl) hown ⟨hd, update_self .., fun x hx => ?_⟩, rfl⟩
    cases hx
  | @scan b pp x hx =>
    obtain ⟨hd, hb, hpp⟩ := hplace
    have hxq : x ∈ q := by
      cases pp with
      | none => exact h.head_mem hx
      | some y => exact h.chain.mem_next (hpp y rfl) hx
    refine ⟨q, hpass rfl hown ⟨hd, hb, fun y hy => Option.some.inj hy ▸ hxq⟩, ?_⟩
    rw [change, hx, if_neg (Option.some_ne_none x)]
    exact rfl
  | @link b pp hend =>
    refine ⟨q ++ [b], h.link hl hend, ?_⟩
    rw [change, if_pos hend]
    exact rfl
  | @start b hb =>
    refine ⟨q, (hstay rfl rfl rfl rfl : Queued (m.start b) lab q).relabel hown ?_ trivial, rfl⟩
    intro b' _ hb'
    rwa [hl] at hb'
  | @wait b hb =>
    refine ⟨q, h.relabel hown ?_ trivial, rfl⟩
    intro b' _ hb'
    rwa [hl] at hb'
  | @done b hd =>
    refine ⟨q, h.relabel (hleave rfl) ?_ trivial, rfl⟩
    intro b' hb' hlab
    rw [hl] at hlab
    cases hlab
    exact absurd hd (h.todo b hb')
  | intrAcquire | wake | last | release => exact ⟨q, hpass rfl (hleave rfl) trivial, rfl⟩
  | spurious hq =>
    refine ⟨q, hpass rfl (hleave rfl) trivial, ?_⟩
    rw [change, hq]
    exact rfl
  | @pop b hb =>
    obtain ⟨q', hq, hpop⟩ := h.pop (fun r => hex r trivial) hl hb
    refine ⟨q', hpop, ?_⟩
    rw [change, hb]
    exact hq
  | @restart b hb =>
    have hmem : Queued (m.start b) lab q := hstay rfl rfl rfl rfl
    exact ⟨q, hmem.pass (hl ▸ rfl) (hleave rfl) trivial, rfl⟩

theorem Queued.way (h : Queued m lab q)
    (hex : ∀ p r, Critical (lab p) → r ≠ p → ¬Critical (lab r)) (hw : Way m lab a e m' lab') :
    ∃ q', Queued m' lab' q' ∧ Shift e q q' := by
  -- A process outside the code is in no call.
  have hout : ∀ {p r b}, lab p = .out → m.owner b = some p → (lab r).buf? ≠ some b := by
    intro p r b hp hb hr
    have hown := h.own r b hr
    rw [hb] at hown
    cases hown
    rw [hp] at hr
    cases hr
  cases hw with
  | @move p _ _ hm => exact h.move (hex p) hm
  | @request p b hp hb =>
    refine ⟨q, h.pass (hp ▸ rfl) (fun b' hb' => ?_) trivial, rfl⟩
    cases hb'
    exact hb
  | @interrupt p hp hirq =>
    have hmem : Queued { m with irq := false } lab q :=
      h.of_mem rfl (fun _ _ _ => rfl) (fun _ _ _ => rfl) fun _ _ _ _ => rfl
    refine ⟨q, hmem.pass (hp ▸ rfl) (fun b hb => ?_) trivial, rfl⟩
    cases hb
  | @lock p b hp hb =>
    refine ⟨q, h.of_mem rfl ?_ (fun _ _ _ => rfl) fun _ _ _ _ => rfl, rfl⟩
    intro r b' hr
    refine update_of_ne ?_ ..
    rintro rfl
    have hown := h.own r b' hr
    rw [hb] at hown
    cases hown
  | @unlock p b hp hb =>
    refine ⟨q, h.of_mem rfl ?_ (fun _ _ _ => rfl) fun _ _ _ _ => rfl, rfl⟩
    intro r b' hr
    refine update_of_ne ?_ ..
    rintro rfl
    exact hout hp hb hr
  | @edit p b x hp hb =>
    refine ⟨q, h.of_mem rfl (fun _ _ _ => rfl) ?_ fun _ _ _ _ => rfl, rfl⟩
    intro r b' hr
    refine update_of_ne ?_ ..
    rintro rfl
    exact hout hp hb hr
  | @complete c hc =>
    refine ⟨q, ?_, rfl⟩
    cases c <;> exact h.of_mem rfl (fun _ _ _ => rfl) (fun _ _ _ => rfl) fun _ _ _ _ => rfl
  | quiet => exact ⟨q, h, rfl⟩

/-! ### The controller -/

/-- A handler that has not taken its buffer off. -/
def Handler : Label B → Prop
  | .intrAcquire | .intrPop => True
  | _ => False

/-- A process that is about to start the controller on the first buffer. -/
def Starter (m : Mem P B) : Label B → Prop
  | .intrWake _ | .intrStart => True
  | .rwStart b => m.idequeue = some b
  | _ => False

/-- There is no command and no interrupt. -/
structure Idle (m : Mem P B) (lab : P → Label B) : Prop where
  cmd : m.cmd = none
  irq : m.irq = false
  handler : ∀ p, ¬Handler (lab p)

/-- The controller works on the first buffer of the queue: it has a command, or there is one
interrupt, or somebody is about to start it. -/
structure Driven (m : Mem P B) (lab : P → Label B) : Prop where
  empty : m.idequeue = none → Idle m lab
  starter : ∀ p, Starter m (lab p) → Idle m lab
  busy : m.idequeue ≠ none → (∀ p, ¬Starter m (lab p)) → ¬Idle m lab
  exec : ∀ c, m.cmd = some c → ∃ b, m.idequeue = some b ∧ c = (m.buf b).command
  cmd_only : m.cmd ≠ none → m.irq = false ∧ ∀ p, ¬Handler (lab p)
  irq_only : m.irq = true → ∀ p, ¬Handler (lab p)
  one : ∀ p r, Handler (lab p) → Handler (lab r) → p = r

omit [DecidableEq B] [DecidableEq P] in
lemma starter_congr (h : m'.idequeue = m.idequeue) (l : Label B) : Starter m' l ↔ Starter m l := by
  cases l <;> first | exact Iff.rfl | exact iff_of_eq (congrArg (· = _) h)

omit [DecidableEq B] [DecidableEq P] in
lemma Critical.of_starter {l : Label B} (h : Starter m l) : Critical l := by
  cases l <;> trivial

namespace Driven

variable (h : Driven m lab)

include h

omit [DecidableEq B] [DecidableEq P] in
/-- Nothing changes at the controller. -/
lemma congr (hqueue : m'.idequeue = m.idequeue) (hcmd : m'.cmd = m.cmd) (hirq : m'.irq = m.irq)
    (hbuf : ∀ b, m.idequeue = some b → m'.buf b = m.buf b)
    (hhandler : ∀ p, Handler (lab' p) ↔ Handler (lab p))
    (hstarter : ∀ p, Starter m (lab' p) ↔ Starter m (lab p)) : Driven m' lab' := by
  have hidle : Idle m' lab' ↔ Idle m lab := by
    constructor
    · exact fun hi => ⟨hcmd ▸ hi.cmd, hirq ▸ hi.irq, fun p hp => hi.handler p ((hhandler p).mpr hp)⟩
    · exact fun hi => ⟨hcmd ▸ hi.cmd, hirq ▸ hi.irq, fun p hp => hi.handler p ((hhandler p).mp hp)⟩
  have hstart : ∀ p, Starter m' (lab' p) ↔ Starter m (lab p) := fun p =>
    (starter_congr hqueue _).trans (hstarter p)
  refine ⟨?_, ?_, ?_, ?_, ?_, ?_, ?_⟩
  · rw [hqueue, hidle]
    exact h.empty
  · intro p hp
    exact hidle.mpr (h.starter p ((hstart p).mp hp))
  · rw [hqueue, hidle]
    exact fun hne hno => h.busy hne fun p hp => hno p ((hstart p).mpr hp)
  · intro c hc
    rw [hcmd] at hc
    obtain ⟨b, hb, rfl⟩ := h.exec c hc
    exact ⟨b, hqueue.trans hb, by rw [hbuf b hb]⟩
  · rw [hcmd, hirq]
    exact fun hne => (h.cmd_only hne).imp_right fun hno p hp => hno p ((hhandler p).mp hp)
  · rw [hirq]
    exact fun hi p hp => h.irq_only hi p ((hhandler p).mp hp)
  · exact fun p r hp hr => h.one p r ((hhandler p).mp hp) ((hhandler r).mp hr)

omit [DecidableEq B] in
/-- A process goes to another place, which makes no difference to the controller. -/
lemma relabel (hhandler : Handler l' ↔ Handler (lab p))
    (hstarter : Starter m l' ↔ Starter m (lab p)) : Driven m (update lab p l') := by
  refine h.congr rfl rfl rfl (fun _ _ => rfl) (fun r => ?_) (fun r => ?_)
  · rcases eq_or_ne r p with rfl | hne
    · rwa [update_self]
    · rw [update_of_ne hne]
  · rcases eq_or_ne r p with rfl | hne
    · rwa [update_self]
    · rw [update_of_ne hne]

omit [DecidableEq B] in
/-- The controller is started on the first buffer. -/
lemma start (hex : ∀ r, r ≠ p → ¬Critical (lab r)) (hp : Starter m (lab p))
    (hb : m.idequeue = some b) (hhandler : ¬Handler l') (hstarter : ¬Starter m l') :
    Driven (m.start b) (update lab p l') := by
  have hidle := h.starter p hp
  have hno : ∀ r, ¬Handler (update lab p l' r) := by
    intro r
    rcases eq_or_ne r p with rfl | hne
    · rwa [update_self]
    · rw [update_of_ne hne]
      exact hidle.handler r
  have hstart : ∀ r, ¬Starter (m.start b) (update lab p l' r) := by
    intro r hr
    have hr : Starter m (update lab p l' r) := (starter_congr rfl _).mp hr
    rcases eq_or_ne r p with rfl | hne
    · rw [update_self] at hr
      exact hstarter hr
    · rw [update_of_ne hne] at hr
      exact hex r hne (.of_starter hr)
  refine ⟨fun hq => ?_, fun r hr => absurd hr (hstart r), fun _ _ hi => ?_, ?_, ?_, ?_, ?_⟩
  · exact absurd (hb.symm.trans hq) nofun
  · exact absurd hi.cmd nofun
  · intro c hc
    cases hc
    exact ⟨b, hb, rfl⟩
  · exact fun _ => ⟨hidle.irq, hno⟩
  · exact fun _ => hno
  · exact fun r _ hr => absurd hr (hno r)

/-- A buffer is appended; if it is the first one its process starts the controller. -/
lemma link {pp : Option B} (hq : Queued m lab q) (hp : lab p = .rwScan b pp)
    (hend : m.next pp = none) : Driven (m.link pp b) (update lab p (.rwStart b)) := by
  have hhandler : ∀ r, Handler (update lab p (.rwStart b) r) ↔ Handler (lab r) := by
    intro r
    rcases eq_or_ne r p with rfl | hne
    · rw [update_self, hp]
      exact Iff.rfl
    · rw [update_of_ne hne]
  cases pp with
  | none =>
    have hidle := h.empty hend
    have hno : ∀ r, ¬Handler (update lab p (.rwStart b) r) := fun r hr =>
      hidle.handler r ((hhandler r).mp hr)
    refine ⟨nofun, fun _ _ => ⟨hidle.cmd, hidle.irq, hno⟩, fun _ hno => ?_, ?_, ?_, ?_, ?_⟩
    · refine absurd ?_ (hno p)
      rw [update_self]
      exact rfl
    · intro c hc
      exact absurd (hidle.cmd.symm.trans hc) nofun
    · exact fun hne => absurd hidle.cmd hne
    · exact fun _ => hno
    · exact fun r _ hr => absurd hr (hno r)
  | some x =>
    refine h.congr rfl rfl rfl (fun _ _ => rfl) hhandler fun r => ?_
    rcases eq_or_ne r p with rfl | hne
    · rw [update_self, hp]
      refine iff_of_false (fun hb => ?_) id
      exact hq.not_mem (hq.own r b (hp ▸ rfl)) (hp ▸ rfl) (hq.head_mem hb)
    · rw [update_of_ne hne]

/-- The first buffer is taken off by the only handler, which then starts the controller. -/
lemma pop (hp : lab p = .intrPop) : Driven (m.pop b) (update lab p (.intrWake b)) := by
  have hcmd : m.cmd = none := by
    by_contra hne
    exact (h.cmd_only hne).2 p (hp ▸ trivial)
  have hirq : m.irq = false := by
    by_contra hne
    exact h.irq_only (Bool.eq_true_of_not_eq_false hne) p (hp ▸ trivial)
  have hno : ∀ r, ¬Handler (update lab p (.intrWake b) r) := by
    intro r hr
    rcases eq_or_ne r p with rfl | hne
    · rw [update_self] at hr
      exact hr
    · rw [update_of_ne hne] at hr
      exact hne (h.one r p hr (hp ▸ trivial))
  have hidle : Idle (m.pop b) (update lab p (.intrWake b)) := ⟨hcmd, hirq, hno⟩
  refine ⟨fun _ => hidle, fun _ _ => hidle, fun _ hno => ?_, ?_, ?_, ?_, ?_⟩
  · refine absurd ?_ (hno p)
    rw [update_self]
    trivial
  · intro c hc
    exact absurd (hcmd.symm.trans hc) nofun
  · exact fun hne => absurd hcmd hne
  · exact fun _ => hno
  · exact fun r _ hr => absurd hr (hno r)

omit [DecidableEq B] in
/-- The handler that finds nothing more to start. -/
lemma last (hp : m.idequeue = none) (hhandler : ¬Handler l') : Driven m (update lab p l') := by
  have hidle := h.empty hp
  have hno : ∀ r, ¬Handler (update lab p l' r) := by
    intro r
    rcases eq_or_ne r p with rfl | hne
    · rwa [update_self]
    · rw [update_of_ne hne]
      exact hidle.handler r
  have hidle' : Idle m (update lab p l') := ⟨hidle.cmd, hidle.irq, hno⟩
  refine ⟨fun _ => hidle', fun _ _ => hidle', fun hne => absurd hp hne, ?_, ?_, ?_, ?_⟩
  · intro c hc
    exact absurd (hidle.cmd.symm.trans hc) nofun
  · exact fun hne => absurd hidle.cmd hne
  · exact fun _ => hno
  · exact fun r _ hr => absurd hr (hno r)

omit [DecidableEq B] in
/-- The interrupt is taken. -/
lemma interrupt (hp : lab p = .out) (hirq : m.irq = true) :
    Driven { m with irq := false } (update lab p .intrAcquire) := by
  have hbusy : ¬Idle m lab := fun hi => absurd (hi.irq.symm.trans hirq) nofun
  have hcmd : m.cmd = none := by
    by_contra hne
    exact absurd ((h.cmd_only hne).1.symm.trans hirq) nofun
  have honly : ∀ r, Handler (update lab p .intrAcquire r) → r = p := by
    intro r hr
    by_contra hne
    rw [update_of_ne hne] at hr
    exact h.irq_only hirq r hr
  have hstarter : ∀ r, ¬Starter { m with irq := false } (update lab p .intrAcquire r) := by
    intro r hr
    have hr : Starter m (update lab p .intrAcquire r) := (starter_congr rfl _).mp hr
    rcases eq_or_ne r p with rfl | hne
    · rw [update_self] at hr
      exact hr
    · rw [update_of_ne hne] at hr
      exact hbusy (h.starter r hr)
  refine ⟨fun hq => absurd (h.empty hq) hbusy, fun r hr => absurd hr (hstarter r), ?_, ?_,
    ?_, nofun, ?_⟩
  · intro _ _ hi
    refine hi.handler p ?_
    rw [update_self]
    trivial
  · intro c hc
    exact absurd (hcmd.symm.trans hc) nofun
  · exact fun hne => absurd hcmd hne
  · exact fun r r' hr hr' => (honly r hr).trans (honly r' hr').symm

omit [DecidableEq B] [DecidableEq P] in
/-- The command has been carried out. -/
lemma complete {c : Command} (hc : m.cmd = some c) : Driven (m.complete c) lab := by
  obtain ⟨-, hno⟩ := h.cmd_only (hc ▸ nofun)
  have hbusy : ¬Idle m lab := fun hi => absurd (hi.cmd.symm.trans hc) nofun
  have hfields : (m.complete c).idequeue = m.idequeue ∧ (m.complete c).cmd = none ∧
      (m.complete c).irq = true := by
    cases c <;> exact ⟨rfl, rfl, rfl⟩
  obtain ⟨hqueue, hcmd, hirq⟩ := hfields
  refine ⟨?_, ?_, ?_, ?_, ?_, ?_, ?_⟩
  · rw [hqueue]
    exact fun hq => absurd (h.empty hq) hbusy
  · intro r hr
    exact absurd (h.starter r ((starter_congr hqueue _).mp hr)) hbusy
  · exact fun _ _ hi => absurd (hi.irq.symm.trans hirq) nofun
  · intro c' hc'
    exact absurd (hcmd.symm.trans hc') nofun
  · exact fun hne => absurd hcmd hne
  · exact fun _ => hno
  · exact fun r _ hr => absurd hr (hno r)

lemma move (hq : Queued m lab q) (hex : ∀ r, Critical (lab p) → r ≠ p → ¬Critical (lab r))
    (hm : Move m (lab p) m' l') : Driven m' (update lab p l') := by
  generalize hl : lab p = l at hm hex
  have hkeep : ∀ {l'}, (Handler l' ↔ Handler l) → (Starter m l' ↔ Starter m l) →
      Driven m (update lab p l') := fun hh hs => h.relabel (hl ▸ hh) (hl ▸ hs)
  cases hm with
  | rwAcquire | scan | done | release | intrAcquire | wake => exact hkeep Iff.rfl Iff.rfl
  | @check b =>
    have hscan : Driven m (update lab p (.rwScan b none)) := hkeep Iff.rfl Iff.rfl
    exact hscan.congr rfl rfl rfl (fun _ _ => rfl) (fun _ => Iff.rfl) fun _ => Iff.rfl
  | link hend => exact h.link hq hl hend
  | @start b hb =>
    exact h.start (fun r => hex r trivial) (hl ▸ hb) hb id id
  | wait hb => exact hkeep Iff.rfl (iff_of_false id hb)
  | spurious hq | last hq => exact h.last hq id
  | pop => exact h.pop hl
  | restart hb => exact h.start (fun r => hex r trivial) (hl ▸ trivial) hb id id

theorem way (hq : Queued m lab q) (hex : ∀ p r, Critical (lab p) → r ≠ p → ¬Critical (lab r))
    (hw : Way m lab a e m' lab') : Driven m' lab' := by
  cases hw with
  | @move p _ _ hm => exact h.move hq (hex p) hm
  | request hp => exact h.relabel (hp ▸ Iff.rfl) (hp ▸ Iff.rfl)
  | interrupt hp hirq => exact h.interrupt hp hirq
  | lock | unlock =>
    exact h.congr rfl rfl rfl (fun _ _ => rfl) (fun _ => Iff.rfl) fun _ => Iff.rfl
  | @edit p b x hp hb =>
    refine h.congr rfl rfl rfl (fun b' hb' => ?_) (fun _ => Iff.rfl) fun _ => Iff.rfl
    refine update_of_ne ?_ ..
    rintro rfl
    exact hq.not_mem hb (hp ▸ rfl) (hq.head_mem hb')
  | complete hc => exact h.complete hc
  | quiet => exact h

end Driven

end Xv6.Sync
