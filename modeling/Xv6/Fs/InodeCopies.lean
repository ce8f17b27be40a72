import Xv6.Fs.InodeRefs

/-!
What a cached copy of a dinode is worth.

* `EntryOk`: the copy and the dinode, by where the holder of the lock is.
* `Closing`: the only reference that is left belongs to an `iput` that has freed the inode.
  This is so while the dinode is free, and stays so after `ialloc` has taken it, until
  `ialloc` itself calls `iget`.
* `IcacheOk`, `IcacheOk.step`, `icacheOk_of_run`: the invariant of the cache.
-/

namespace Xv6.Fs

open Transition

variable {n : ℕ}

/-! ### What the cached copies are worth -/

/-- Where the holder of an inode's lock is. -/
inductive Spot where
  /-- In no call about this inode. -/
  | away
  /-- In a call that has changed nothing. -/
  | looking
  /-- In `iput`, with no links found. -/
  | unlinked
  /-- In `iput`, with no links and no other reference found. -/
  | doomed
  /-- In `iput`, with the dinode freed. -/
  | freed
  /-- In `iput`, with the dinode freed and `valid` cleared. -/
  | gone

def Pc.spot (i : InodeId) : Pc → Spot
  | .load j | .test j | .release j false => if j = i then .looking else .away
  | .count j => if j = i then .unlinked else .away
  | .trunc j | .free j => if j = i then .doomed else .away
  | .invalid j => if j = i then .freed else .away
  | .release j true => if j = i then .gone else .away
  | _ => .away

lemma Pc.spot_of_inside {p : Pc} {i : InodeId} (h : p.inside ≠ some i) : p.spot i = .away := by
  unfold Pc.spot
  split <;> simp_all [Pc.inside]

/-- What holds of an entry and its dinode, by where the holder of the lock is. -/
def EntryOk (e : Inode n) (d : Dinode) : Option Spot → Prop
  | none | some .looking => e.valid → e.din = d ∧ d.type ≠ .free
  | some .away => e.valid ∧ e.din.type ≠ .free ∧ d.type ≠ .free
  | some .unlinked => e.valid ∧ e.din = d ∧ d.type ≠ .free ∧ d.nlink = 0
  | some .doomed => e.valid ∧ e.din = d ∧ d.type ≠ .free ∧ d.nlink = 0 ∧ e.ref = 1
  | some .freed => e.valid ∧ e.din.type = .free
  | some .gone => e.valid = false

/-- The number of references matters only while an inode is about to be freed. -/
lemma EntryOk.of_ref {e : Inode n} {d : Dinode} {o : Option Spot} {k : ℕ} (h : EntryOk e d o)
    (ho : o ≠ some .doomed) : EntryOk { e with ref := k } d o := by
  match o with
  | none | some .looking | some .away | some .unlinked | some .freed | some .gone => exact h
  | some .doomed => exact absurd rfl ho

/-- Where the holder of the lock of an entry is. -/
def Icache.spot (s : Icache n) (i : InodeId) : Option Spot :=
  (s.entry i).lock.map fun t => (s.pc t).spot i

/-- The only reference to the inode belongs to an `iput` that has freed it. -/
def Closing (s : Icache n) (a : Ino) : Prop :=
  ∀ i, 0 < (s.entry i).ref → (s.entry i).ino = a →
    (s.entry i).ref = 1 ∧ ∃ t, (s.pc t).finishing = some i

/-- What holds while `ialloc` is about to call `iget`. -/
structure Fetching (s : Icache n) (t : Tid n) (a : Ino) : Prop where
  type : (s.dinode a).type ≠ .free
  nlink : (s.dinode a).nlink = 0
  closing : Closing s a
  alone : ∀ u, s.pc u = .fetch a → u = t

/-- The invariant. -/
structure IcacheOk (s : Icache n) : Prop where
  refs : RefsOk s
  calls : ∀ t, CallOk s t
  entries : ∀ i, 0 < (s.entry i).ref → EntryOk (s.entry i) (s.dinode (s.entry i).ino) (s.spot i)
  dead : ∀ a, (s.dinode a).type = .free → Closing s a
  fetch : ∀ t a, s.pc t = .fetch a → Fetching s t a

namespace IcacheOk

variable {s s' : Icache n} {t u : Tid n} {i : InodeId} {a : Ino} {p : Pc}

/-- Where the holder of the lock is, from inside its call. -/
lemma spot_of_inside (h : IcacheOk s) (hpc : (s.pc t).inside = some i) :
    s.spot i = some ((s.pc t).spot i) := by
  rw [Icache.spot, (h.calls t).inside i hpc]
  rfl

/-- Nobody but the closing `iput` has a reference. -/
lemma not_closing (h : IcacheOk s) (hheld : 0 < s.held t i) (hfin : (s.pc t).finishing ≠ some i) :
    ¬Closing s (s.entry i).ino := by
  intro hc
  obtain ⟨hone, u, hu⟩ := hc i (h.refs.ref_pos hheld) rfl
  have huheld := (h.calls u).uses i (Pc.inode_of_finishing hu)
  have heq := h.refs.eq_of_ref_eq_one hone huheld hheld
  subst heq
  exact hfin hu

/-- The lock of a closing inode is free or belongs to the closing `iput`. -/
lemma spot_of_closing (h : IcacheOk s) (hone : (s.entry i).ref = 1)
    (hfin : (s.pc t).finishing = some i) :
    s.spot i = none ∨ s.spot i = some .freed ∨ s.spot i = some .gone := by
  cases hl : (s.entry i).lock with
  | none => exact .inl (by simp [Icache.spot, hl])
  | some u =>
    have hut : u = t := h.refs.eq_of_ref_eq_one hone
      ((h.calls t).uses i (Pc.inode_of_finishing hfin)) ((h.calls u).locks i hl)
    subst hut
    have hspot : s.spot i = some ((s.pc u).spot i) := by simp [Icache.spot, hl]
    obtain hpc | hpc | hpc := Pc.finishing_eq_some hfin
    · simp [hspot, hpc, Pc.spot]
    · simp [hspot, hpc, Pc.spot]
    · exact absurd hl ((h.calls u).dropped i true hpc)

/-- The cached copy of a closing inode shows no links. -/
lemma current_of_closing (h : IcacheOk s) (hc : Closing s a)
    (hd : (s.dinode a).type = .free ∨ (s.dinode a).nlink = 0) :
    (s.current a).type = .free ∨ (s.current a).nlink = 0 := by
  unfold Icache.current
  split
  case h_2 => exact hd
  case h_1 i hfind =>
    obtain ⟨hpos, hino⟩ := Icache.find_eq_some hfind
    subst hino
    split
    case isFalse => exact hd
    case isTrue hv =>
      obtain ⟨hone, t, hfin⟩ := hc i hpos rfl
      have hok := h.entries i hpos
      obtain hspot | hspot | hspot := h.spot_of_closing hone hfin <;> rw [hspot] at hok
      · rwa [(hok hv).1]
      · exact .inl hok.2
      · simp [EntryOk, hv] at hok

/-- A lookup never calls `iget` for an inode that is free or that `ialloc` has taken. -/
lemma not_closing_of_lookup (h : IcacheOk s) (hpc : s.pc t = .user)
    (hok : s.Linked a ∨ s.Refers t a) :
    (s.dinode a).type ≠ .free ∧ ∀ u, s.pc u ≠ .fetch a := by
  have hnot : ∀ _ : Closing s a, ¬((s.dinode a).type = .free ∨ (s.dinode a).nlink = 0) := by
    intro hc hd
    obtain hlink | ⟨i, hheld, rfl⟩ := hok
    · obtain hcur | hcur := h.current_of_closing hc hd
      · exact hlink.1 hcur
      · exact absurd hlink.2 (by omega)
    · exact h.not_closing hheld (by simp [hpc, Pc.finishing]) hc
  refine ⟨fun hd => hnot (h.dead a hd) (.inl hd), fun u hu => ?_⟩
  exact hnot (h.fetch u a hu).closing (.inr (h.fetch u a hu).nlink)

/-- A process with a reference keeps the inode from being closed. -/
lemma not_closing_of_held (h : IcacheOk s) (hheld : 0 < s.held t i)
    (hfin : (s.pc t).finishing ≠ some i) :
    (s.dinode (s.entry i).ino).type ≠ .free ∧ ∀ u, s.pc u ≠ .fetch (s.entry i).ino :=
  ⟨fun hd => h.not_closing hheld hfin (h.dead _ hd),
    fun u hu => h.not_closing hheld hfin (h.fetch u _ hu).closing⟩

end IcacheOk

variable {j : InodeId}

lemma spot_congr {s s' : Icache n} (hlock : (s'.entry j).lock = (s.entry j).lock)
    (hpc : ∀ u, (s.entry j).lock = some u → (s'.pc u).spot j = (s.pc u).spot j) :
    s'.spot j = s.spot j := by
  rw [Icache.spot, Icache.spot, hlock]
  cases hl : (s.entry j).lock with
  | none => rfl
  | some u => simp [hpc u hl]

/-- An entry that the step leaves alone. -/
lemma IcacheOk.entry_congr {s s' : Icache n} {t : Tid n} (h : IcacheOk s)
    (hpos : 0 < (s'.entry j).ref) (hentry : s'.entry j = s.entry j)
    (hdin : 0 < (s.entry j).ref → s'.dinode (s.entry j).ino = s.dinode (s.entry j).ino)
    (hpc : ∀ u ≠ t, s'.pc u = s.pc u) (hin : (s.pc t).inside ≠ some j)
    (hin' : (s'.pc t).inside ≠ some j) :
    EntryOk (s'.entry j) (s'.dinode (s'.entry j).ino) (s'.spot j) := by
  have hspot : s'.spot j = s.spot j := by
    refine spot_congr (by rw [hentry]) fun u _ => ?_
    by_cases hu : u = t
    · subst hu
      rw [Pc.spot_of_inside hin, Pc.spot_of_inside hin']
    · rw [hpc u hu]
  rw [hentry] at hpos ⊢
  rw [hspot, hdin hpos]
  exact h.entries j hpos

namespace IcacheOk

variable {s s' : Icache n} {t u : Tid n} {i : InodeId} {a : Ino} {p q : Pc}

variable (h : IcacheOk s)

include h

/-- One entry is looked at by itself, the others are left alone. -/
lemma entries_of (hpos : 0 < (s'.entry j).ref) (i : InodeId)
    (hentry : ∀ j ≠ i, s'.entry j = s.entry j)
    (hdin : ∀ j ≠ i, 0 < (s.entry j).ref → s'.dinode (s.entry j).ino = s.dinode (s.entry j).ino)
    (hpc : ∀ u ≠ t, s'.pc u = s.pc u) (hin : ∀ j ≠ i, (s.pc t).inside ≠ some j)
    (hin' : ∀ j ≠ i, (s'.pc t).inside ≠ some j)
    (hi : 0 < (s'.entry i).ref → EntryOk (s'.entry i) (s'.dinode (s'.entry i).ino) (s'.spot i)) :
    EntryOk (s'.entry j) (s'.dinode (s'.entry j).ino) (s'.spot j) := by
  by_cases hj : j = i
  · subst hj
    exact hi hpos
  · exact h.entry_congr hpos (hentry j hj) (hdin j hj) hpc (hin j hj) (hin' j hj)

/-- What holds of the entry that a call has locked. -/
lemma entry_of_inside {x : Spot} (hpc : s.pc t = p) (hin : p.inside = some i) (hx : p.spot i = x) :
    EntryOk (s.entry i) (s.dinode (s.entry i).ino) (some x) := by
  subst hpc hx
  rw [← h.spot_of_inside hin]
  exact h.entries i (h.refs.ref_pos ((h.calls t).uses i (Pc.inode_of_inside hin)))

/-- What holds of the entry that a process without a call has locked. -/
lemma entry_of_locks (hl : s.Locks t i) :
    EntryOk (s.entry i) (s.dinode (s.entry i).ino) (some .away) := by
  have hok := h.entries i (h.refs.ref_pos ((h.calls t).locks i hl.2))
  have hspot : s.spot i = some .away := by simp [Icache.spot, hl.2, hl.1, Pc.spot]
  rwa [hspot] at hok

/-- Two inodes in use have different numbers. -/
lemma ino_ne (hi : 0 < (s.entry i).ref) (hj : 0 < (s.entry j).ref) (hne : j ≠ i) :
    (s.entry j).ino ≠ (s.entry i).ino :=
  fun heq => hne (h.refs.uniq j i hj hi heq)

/-- A process inside a call about an inode it has locked. -/
lemma entries_call (hpos : 0 < (s'.entry j).ref) (hq : s.pc t = q) (hin : q.inside = some i)
    (hp : s'.pc t = p) (hin' : p.inside = none ∨ p.inside = some i)
    (hpc : ∀ u ≠ t, s'.pc u = s.pc u) (hentry : ∀ j ≠ i, s'.entry j = s.entry j)
    (hdin : ∀ j ≠ i, 0 < (s.entry j).ref → s'.dinode (s.entry j).ino = s.dinode (s.entry j).ino)
    (hlock : (s'.entry i).lock = (s.entry i).lock)
    (hi : EntryOk (s'.entry i) (s'.dinode (s'.entry i).ino) (some (p.spot i))) :
    EntryOk (s'.entry j) (s'.dinode (s'.entry j).ino) (s'.spot j) := by
  refine h.entries_of (t := t) hpos i hentry hdin hpc (fun k hk => ?_) (fun k hk => ?_) fun _ => ?_
  · simp [hq, hin, Ne.symm hk]
  · obtain hin' | hin' := hin' <;> simp [hp, hin', Ne.symm hk]
  · rw [(h.calls t).inside i (by rw [hq, hin])] at hlock
    have hspot : s'.spot i = some (p.spot i) := by simp [Icache.spot, hlock, hp]
    rwa [hspot]

/-- A process that moves between places outside of the calls' locked parts. -/
lemma entries_outside (hin : (s.pc t).inside = none) (hp : p.inside = none) (j : InodeId)
    (hpos : 0 < ((s.goto t p).entry j).ref) :
    EntryOk (s.entry j) (s.dinode (s.entry j).ino) ((s.goto t p).spot j) :=
  h.entry_congr (t := t) hpos rfl (fun _ => rfl) (fun _ hu => s.goto_of_ne hu p) (by simp [hin])
    (by simp [hp])

lemma entries_move (hm : MoveTo s t p) (j : InodeId) (hpos : 0 < ((s.goto t p).entry j).ref) :
    EntryOk (s.entry j) (s.dinode (s.entry j).ino) ((s.goto t p).spot j) := by
  have hcall : ∀ {i q}, s.pc t = q → q.inside = some i → p.inside = none ∨ p.inside = some i →
      EntryOk (s.entry i) (s.dinode (s.entry i).ino) (some (p.spot i)) →
      EntryOk (s.entry j) (s.dinode (s.entry j).ino) ((s.goto t p).spot j) := fun hq hin hin' hi =>
    h.entries_call hpos hq hin (s.goto_self p) hin' (fun u hu => s.goto_of_ne hu p)
      (fun _ _ => rfl) (fun _ _ _ => rfl) rfl hi
  cases hm with
  | ilock hpc _ | iput hpc _ | ialloc hpc _ | next hpc =>
    exact h.entries_outside (by simp [hpc, Pc.inside]) rfl j hpos
  | loaded hpc hv =>
    obtain ⟨hd, htype⟩ := h.entry_of_inside hpc rfl (if_pos rfl) hv
    exact hcall hpc rfl (.inl rfl) ⟨hv, hd ▸ htype, htype⟩
  | count hpc hv hlink =>
    obtain ⟨hd, htype⟩ := h.entry_of_inside hpc rfl (if_pos rfl) hv
    refine hcall hpc rfl (.inr rfl) ?_
    simp only [Pc.spot, if_true]
    exact ⟨hv, hd, htype, hd ▸ hlink⟩
  | keep hpc =>
    obtain hpc | hpc := hpc
    all_goals
      have hok := h.entry_of_inside hpc rfl (if_pos rfl)
      refine hcall hpc rfl (.inr rfl) ?_
      simp only [Pc.spot, if_true]
    · exact hok
    · exact fun _ => ⟨hok.2.1, hok.2.2.1⟩
  | trunc hpc href =>
    obtain ⟨hv, hd, htype, hlink⟩ := h.entry_of_inside hpc rfl (if_pos rfl)
    refine hcall hpc rfl (.inr rfl) ?_
    simp only [Pc.spot, if_true]
    exact ⟨hv, hd, htype, hlink, href⟩

/-- One more reference to an inode that no `iput` is about to free. -/
lemma entries_addRef (hspot : s.spot i ≠ some .doomed) (t : Tid n) (j : InodeId)
    (hpos : 0 < (s.entry i).ref) (hj : 0 < ((s.addRef t i).entry j).ref) :
    EntryOk ((s.addRef t i).entry j) (s.dinode ((s.addRef t i).entry j).ino)
      ((s.addRef t i).spot j) := by
  have hother : ∀ k ≠ i, (s.addRef t i).entry k = s.entry k := fun k hk => by
    simp [Icache.addRef, hk]
  have hself : (s.addRef t i).entry i = { s.entry i with ref := (s.entry i).ref + 1 } := by
    simp [Icache.addRef]
  have hspots : (s.addRef t i).spot j = s.spot j := by
    refine spot_congr ?_ fun _ _ => rfl
    by_cases hji : j = i
    · rw [hji, hself]
    · rw [hother j hji]
  rw [hspots]
  by_cases hji : j = i
  · subst hji
    rw [hself]
    exact (h.entries j hpos).of_ref hspot
  · rw [hother j hji] at hj ⊢
    exact h.entries j hj

/-- An inode with a reference outside of `iput` is not about to be freed. -/
lemma not_doomed_of_held (hheld : 0 < s.held t i) (hpc : (s.pc t).inside ≠ some i) :
    s.spot i ≠ some .doomed := by
  intro hspot
  have hok := h.entries i (h.refs.ref_pos hheld)
  rw [hspot] at hok
  rw [Icache.spot] at hspot
  obtain ⟨u, hl, hu⟩ := Option.map_eq_some_iff.mp hspot
  have hut : u = t := h.refs.eq_of_ref_eq_one hok.2.2.2.2 hheld ((h.calls u).locks i hl)
  subst hut
  rw [Pc.spot_of_inside hpc] at hu
  cases hu

/-- An inode that a lookup finds is not about to be freed. -/
lemma not_doomed_of_lookup (hpc : s.pc t = .user)
    (hok : s.Linked (s.entry i).ino ∨ s.Refers t (s.entry i).ino) (hpos : 0 < (s.entry i).ref) :
    s.spot i ≠ some .doomed := by
  obtain hlink | ⟨j, hheld, hino⟩ := hok
  · intro hspot
    have he := h.entries i hpos
    rw [hspot] at he
    obtain ⟨hv, hd, -, hzero, -⟩ := he
    have hcur : s.current (s.entry i).ino = (s.entry i).din := by
      unfold Icache.current
      split
      case h_1 k hfind =>
        obtain ⟨hkpos, hkino⟩ := Icache.find_eq_some hfind
        have hki := h.refs.uniq k i hkpos hpos hkino
        subst hki
        rw [if_pos hv]
      case h_2 hfind => exact absurd rfl (Icache.find_eq_none hfind i hpos)
    have hlinks := hlink.2
    rw [hcur, hd, hzero] at hlinks
    exact lt_irrefl _ hlinks
  · have hji := h.refs.uniq j i (h.refs.ref_pos hheld) hpos hino
    subst hji
    exact h.not_doomed_of_held hheld (by simp [hpc, Pc.inside])

/-- A recycled entry is not valid, and nobody has its lock. -/
lemma entries_recycle (href : (s.entry i).ref = 0) (t : Tid n) (j : InodeId)
    (hj : 0 < ((s.recycle t i a).entry j).ref) :
    EntryOk ((s.recycle t i a).entry j) (s.dinode ((s.recycle t i a).entry j).ino)
      ((s.recycle t i a).spot j) := by
  have hother : ∀ k ≠ i, (s.recycle t i a).entry k = s.entry k := fun k hk => by
    simp [Icache.recycle, hk]
  have hself : (s.recycle t i a).entry i
      = { s.entry i with ino := a, ref := 1, valid := false } := by
    simp [Icache.recycle]
  by_cases hji : j = i
  · subst hji
    have hlock : (s.entry j).lock = none := by
      cases hl : (s.entry j).lock with
      | none => rfl
      | some u =>
        have hpos := h.refs.ref_pos ((h.calls u).locks j hl)
        omega
    have hspot : (s.recycle t j a).spot j = none := by
      rw [Icache.spot, hself]
      simp [hlock]
    rw [hspot, hself]
    simp [EntryOk]
  · have hspot : (s.recycle t i a).spot j = s.spot j :=
      spot_congr (by rw [hother j hji]) fun _ _ => rfl
    rw [hother j hji] at hj ⊢
    rw [hspot]
    exact h.entries j hj

lemma entries_iget (hget : IgetTo s t a s')
    (hok : ∀ i, 0 < (s.entry i).ref → (s.entry i).ino = a → s.spot i ≠ some .doomed) (j : InodeId)
    (hj : 0 < (s'.entry j).ref) : EntryOk (s'.entry j) (s.dinode (s'.entry j).ino) (s'.spot j) := by
  cases hget with
  | found href hino => exact h.entries_addRef (hok _ href hino) t j href hj
  | recycled _ href => exact h.entries_recycle href t j hj

end IcacheOk

lemma entries_of_trans {s s' : Icache n} {a : IcacheAct n} (h : IcacheOk s)
    (ht : IcacheTrans s a s') (j : InodeId) (hj : 0 < (s'.entry j).ref) :
    EntryOk (s'.entry j) (s'.dinode (s'.entry j).ino) (s'.spot j) := by
  cases ht with
  | @iget t b _ hpc hok hget =>
    have hdin : s'.dinode = s.dinode := by cases hget <;> rfl
    rw [hdin]
    refine h.entries_iget hget (fun i hpos hino => ?_) j hj
    subst hino
    exact h.not_doomed_of_lookup hpc hok hpos
  | @idup t i hpc hheld =>
    exact h.entries_addRef (h.not_doomed_of_held hheld (by simp [hpc, Pc.inside])) t j
      (h.refs.ref_pos hheld) hj
  | give _ _ _ _ => exact h.entries j hj
  | move hm _ => exact h.entries_move hm j hj
  | @lock t i p hpc hlock =>
    have hin : ∀ k, (s.pc t).inside ≠ some k := by
      intro k
      obtain ⟨hpc, -⟩ | ⟨hpc, -⟩ := hpc <;> simp [hpc, Pc.inside]
    have hp : p.inside = some i ∧ p.spot i = .looking := by
      obtain ⟨-, rfl⟩ | ⟨-, rfl⟩ := hpc <;> simp [Pc.inside, Pc.spot]
    refine h.entries_of (t := t) hj i (fun k hk => by simp [hk]) (fun _ _ _ => rfl)
      (fun u hu => by simp [hu]) (fun k _ => hin k) (fun k hk => by simp [hp.1, Ne.symm hk])
      fun hpos => ?_
    have hspot : s.spot i = none := by simp [Icache.spot, hlock]
    have hspot' : ((s.setEntry i { s.entry i with lock := some t }).goto t p).spot i
        = some .looking := by simp [Icache.spot, hp.2]
    have hok := h.entries i (by simpa using hpos)
    rw [hspot] at hok
    rw [hspot']
    simpa [EntryOk] using hok
  | load hpc htype =>
    refine h.entries_call hj hpc rfl (Icache.goto_self _ _) (.inl rfl) (fun u hu => by simp [hu])
      (fun k hk => by simp [hk]) (fun _ _ _ => rfl) (by simp) ?_
    simpa [EntryOk, Pc.spot] using htype
  | @iunlock t i hl hd =>
    have hok := h.entry_of_locks hl
    refine h.entries_of (t := t) hj i (fun k hk => by simp [hk]) (fun _ _ _ => rfl)
      (fun _ _ => rfl) (by simp [hl.1, Pc.inside]) (by simp [hl.1, Pc.inside]) fun _ => ?_
    have hspot : (s.setEntry i { s.entry i with lock := none }).spot i = none := by
      simp [Icache.spot]
    rw [hspot]
    simpa [EntryOk] using fun _ => ⟨hd, hok.2.2⟩
  | @modify t i d hl hd =>
    have hok := h.entry_of_locks hl
    refine h.entries_of (t := t) hj i (fun k hk => by simp [hk]) (fun _ _ _ => rfl)
      (fun _ _ => rfl) (by simp [hl.1, Pc.inside]) (by simp [hl.1, Pc.inside]) fun _ => ?_
    have hspot : (s.setEntry i { s.entry i with din := d }).spot i = some .away := by
      simp [Icache.spot, hl.2, hl.1, Pc.spot]
    rw [hspot]
    simpa [EntryOk] using ⟨hok.1, hd, hok.2.2⟩
  | @iupdate t i hl =>
    have hok := h.entry_of_locks hl
    have hpos := h.refs.ref_pos ((h.calls t).locks i hl.2)
    refine h.entries_of (t := t) hj i (fun _ _ => rfl)
      (fun k hk hkpos => Icache.setDinode_of_ne s (h.ino_ne hpos hkpos hk) _)
      (fun _ _ => rfl) (by simp [hl.1, Pc.inside]) (by simp [hl.1, Pc.inside]) fun _ => ?_
    have hspot : (s.setDinode (s.entry i).ino (s.entry i).din).spot i = some .away := by
      simp [Icache.spot, hl.2, hl.1, Pc.spot]
    rw [hspot]
    simpa [EntryOk] using ⟨hok.1, hok.2.1⟩
  | @trunc t i d hpc hd | @free t i d hpc hd =>
    obtain ⟨hv, hdin, htype, hlink, href⟩ := h.entry_of_inside hpc rfl (if_pos rfl)
    refine h.entries_call hj hpc rfl (Icache.goto_self _ _) (.inr rfl) (fun u hu => by simp [hu])
      (fun k hk => by simp [hk]) (fun k hk hkpos =>
        Icache.setDinode_of_ne _ (h.ino_ne (href ▸ one_pos) hkpos hk) _) (by simp) ?_
    simp only [Pc.spot, if_true, EntryOk]
    simp [hv, hd, hdin, htype, hlink, href]
  | invalid hpc =>
    refine h.entries_call hj hpc rfl (Icache.goto_self _ _) (.inr rfl) (fun u hu => by simp [hu])
      (fun k hk => by simp [hk]) (fun _ _ _ => rfl) (by simp) ?_
    simp [Pc.spot, EntryOk]
  | @release t i f hpc =>
    have hin : (s.pc t).inside = some i := by rw [hpc]; rfl
    refine h.entries_of (t := t) hj i (fun k hk => by simp [hk]) (fun _ _ _ => rfl)
      (fun u hu => by simp [hu]) (fun k hk => by simp [hin, Ne.symm hk])
      (fun k _ => by simp [Pc.inside]) fun _ => ?_
    have hspot : ((s.setEntry i { s.entry i with lock := none }).goto t (.drop i f)).spot i
        = none := by simp [Icache.spot]
    rw [hspot]
    cases f with
    | false => simpa [EntryOk] using h.entry_of_inside hpc rfl (if_pos rfl)
    | true =>
      have hok : (s.entry i).valid = false := h.entry_of_inside hpc rfl (if_pos rfl)
      simp [EntryOk, hok]
  | @drop t i f hpc =>
    have hheld := (h.calls t).uses i (by rw [hpc]; rfl)
    have hin : (s.pc t).inside = none := by rw [hpc]; rfl
    have hnot : s.spot i ≠ some .doomed := h.not_doomed_of_held hheld (by simp [hin])
    refine h.entries_of (t := t) hj i (fun k hk => by simp [hk]) (fun _ _ _ => rfl)
      (fun u hu => by simp [hu]) (by simp [hin]) (by simp [Pc.inside]) fun _ => ?_
    have hspot : (((s.setEntry i { s.entry i with ref := (s.entry i).ref - 1 }).setHeld t i
        (s.held t i - 1)).goto t .user).spot i = s.spot i := by
      refine spot_congr (by simp) fun u hl => ?_
      have hu : u ≠ t := by
        rintro rfl
        exact (h.calls u).dropped i f hpc hl
      rw [Icache.goto_of_ne _ hu]
      rfl
    rw [hspot]
    simp only [Icache.goto_entry, Icache.goto_dinode, Icache.setHeld_entry, Icache.setHeld_dinode,
      Icache.setEntry_self, Icache.setEntry_dinode]
    exact (h.entries i (h.refs.ref_pos hheld)).of_ref hnot
  | @take t ty b hpc hfree =>
    have hin : (s.pc t).inside = none := by rw [hpc]; rfl
    by_cases hb : (s.entry j).ino = b
    · subst hb
      have hspot :
          ((s.setDinode (s.entry j).ino (.fresh ty)).goto t (.fetch (s.entry j).ino)).spot j
          = s.spot j := by
        refine spot_congr rfl fun u _ => ?_
        by_cases hu : u = t
        · subst hu
          rw [Icache.goto_self, Pc.spot_of_inside (by simp [Pc.inside]),
            Pc.spot_of_inside (by simp [hin])]
        · rw [Icache.goto_of_ne _ hu]
          rfl
      -- the entry belongs to an `iput` that has freed the inode
      obtain ⟨hone, u, hfin⟩ := h.dead _ hfree j hj rfl
      have hok := h.entries j hj
      rw [hspot]
      obtain hs | hs | hs := h.spot_of_closing hone hfin <;> rw [hs] at hok ⊢
      · exact fun hv => absurd hfree (hok hv).2
      · exact hok
      · exact hok
    · refine h.entry_congr (t := t) hj rfl (fun _ => ?_) (fun u hu => Icache.goto_of_ne _ hu _)
        (by simp [hin]) (by simp [Pc.inside])
      exact Icache.setDinode_of_ne s hb _
  | @fetch t b s₁ hpc hget =>
    have hin : (s.pc t).inside = none := by rw [hpc]; rfl
    have hdin : s₁.dinode = s.dinode := by cases hget <;> rfl
    have hpcs : s₁.pc = s.pc := by cases hget <;> rfl
    have hspot : (s₁.goto t .user).spot j = s₁.spot j := by
      refine spot_congr rfl fun u _ => ?_
      by_cases hu : u = t
      · subst hu
        rw [Icache.goto_self, Pc.spot_of_inside (by simp [Pc.inside]),
          Pc.spot_of_inside (by simp [hpcs, hin])]
      · rw [Icache.goto_of_ne _ hu]
    rw [hspot]
    simp only [Icache.goto_entry, Icache.goto_dinode, hdin]
    refine h.entries_iget hget (fun i hpos hino => ?_) j hj
    obtain ⟨hone, u, hfin⟩ := (h.fetch t b hpc).closing i hpos hino
    obtain hs | hs | hs := h.spot_of_closing hone hfin <;> simp [hs]

/-! ### Inodes that are being closed -/

lemma Closing.congr {s s' : Icache n} {a : Ino} (h : Closing s a)
    (href : ∀ i, (s'.entry i).ino = a → (s'.entry i).ref = (s.entry i).ref)
    (hino : ∀ i, (s'.entry i).ino = (s.entry i).ino)
    (hfin : ∀ t i, (s.pc t).finishing = some i → (s'.pc t).finishing = some i) : Closing s' a := by
  intro i hpos hi
  rw [href i hi] at hpos ⊢
  obtain ⟨hone, t, ht⟩ := h i hpos (by rw [← hino i]; exact hi)
  exact ⟨hone, t, hfin t i ht⟩

/-- A reference to an inode that is not closing. -/
lemma Closing.iget {s s' : Icache n} {t : Tid n} {a b : Ino} (hc : Closing s b)
    (hget : IgetTo s t a s') (hb : b ≠ a) : Closing s' b := by
  cases hget with
  | @found i _ hino =>
    intro j hpos hj
    by_cases hji : j = i
    · subst hji
      simp [Icache.addRef, hino] at hj
      exact absurd hj.symm hb
    · simp only [Icache.addRef, Icache.setHeld_entry, Icache.setEntry_of_ne s hji] at hpos hj ⊢
      exact hc j hpos hj
  | @recycled i _ _ =>
    intro j hpos hj
    by_cases hji : j = i
    · subst hji
      simp [Icache.recycle] at hj
      exact absurd hj.symm hb
    · simp only [Icache.recycle, Icache.setHeld_entry, Icache.setEntry_of_ne s hji] at hpos hj ⊢
      exact hc j hpos hj

/-- What remains to be shown of a step. -/
structure ClosingOk (s : Icache n) : Prop where
  dead : ∀ a, (s.dinode a).type = .free → Closing s a
  fetch : ∀ t a, s.pc t = .fetch a → Fetching s t a

namespace IcacheOk

variable {s s' : Icache n} {t u : Tid n} {i : InodeId} {a : Ino} {p : Pc}

/-- A step that changes neither references nor what becomes of the inodes that are closing. -/
lemma closing_congr (h : IcacheOk s) (hrefs : SameRefs s s')
    (hfin : ∀ t i, (s.pc t).finishing = some i → (s'.pc t).finishing = some i)
    (hnew : ∀ u b, s'.pc u = .fetch b → s.pc u = .fetch b) (hd : ∀ b, s'.dinode b = s.dinode b ∨
      ((s'.dinode b).type = .free → Closing s' b) ∧ ∀ u, s.pc u ≠ .fetch b) :
    ClosingOk s' := by
  have hc : ∀ b, Closing s b → Closing s' b := fun b hb =>
    hb.congr (fun i _ => hrefs.ref i) hrefs.ino hfin
  refine ⟨fun b hb => ?_, fun u b hu => ?_⟩
  · obtain hsame | ⟨hdead, -⟩ := hd b
    · exact hc b (h.dead b (hsame ▸ hb))
    · exact hdead hb
  · have hf := h.fetch u b (hnew u b hu)
    obtain hsame | ⟨-, hno⟩ := hd b
    · exact ⟨by rw [hsame]; exact hf.type, by rw [hsame]; exact hf.nlink, hc b hf.closing,
        fun v hv => hf.alone v (hnew v b hv)⟩
    · exact absurd (hnew u b hu) (hno u)

/-- `closing_congr` for a step that takes a process from one place to another. -/
lemma closing_goto (h : IcacheOk s) (hrefs : SameRefs s s')
    (hpcs : s'.pc = Function.update s.pc t p)
    (hfin : ∀ i, (s.pc t).finishing = some i → p.finishing = some i) (hp : ∀ b, p ≠ .fetch b)
    (hd : ∀ b, s'.dinode b = s.dinode b ∨ ((s'.dinode b).type = .free → Closing s' b) ∧
      ∀ u, s.pc u ≠ .fetch b) : ClosingOk s' := by
  refine h.closing_congr hrefs (fun u i hu => ?_) (fun u b hu => ?_) hd
  · rw [hpcs]
    by_cases hut : u = t
    · subst hut
      simpa using hfin i hu
    · simpa [hut] using hu
  · rw [hpcs] at hu
    by_cases hut : u = t
    · subst hut
      simp [hp b] at hu
    · simpa [hut] using hu

end IcacheOk

lemma closingOk_of_trans {s s' : Icache n} {a : IcacheAct n} (h : IcacheOk s)
    (ht : IcacheTrans s a s') : ClosingOk s' := by
  cases ht with
  | @iget t b _ hpc hok hget =>
    have hdin : s'.dinode = s.dinode := by cases hget <;> rfl
    have hpcs : s'.pc = s.pc := by cases hget <;> rfl
    obtain ⟨htype, hno⟩ := h.not_closing_of_lookup hpc hok
    refine ⟨fun c hc => ?_, fun u c hu => ?_⟩
    · rw [hdin] at hc
      exact (h.dead c hc).iget hget fun hcb => htype (hcb ▸ hc)
    · rw [hpcs] at hu
      have hf := h.fetch u c hu
      exact ⟨by rw [hdin]; exact hf.type, by rw [hdin]; exact hf.nlink,
        hf.closing.iget hget fun hcb => hno u (hcb ▸ hu),
        fun v hv => hf.alone v (by rw [← hpcs]; exact hv)⟩
  | @idup t i hpc hheld =>
    obtain ⟨htype, hno⟩ := h.not_closing_of_held hheld (by simp [hpc, Pc.finishing])
    have hget : IgetTo s t (s.entry i).ino (s.addRef t i) := .found (h.refs.ref_pos hheld) rfl
    refine ⟨fun c hc => ?_, fun u c hu => ?_⟩
    · exact (h.dead c hc).iget hget fun hcb => htype (hcb ▸ hc)
    · have hf := h.fetch u c hu
      exact ⟨hf.type, hf.nlink, hf.closing.iget hget fun hcb => hno u (hcb ▸ hu),
        hf.alone⟩
  | give _ _ _ _ => exact ⟨h.dead, fun t b hb => ⟨(h.fetch t b hb).type, (h.fetch t b hb).nlink,
      (h.fetch t b hb).closing, (h.fetch t b hb).alone⟩⟩
  | @move _ p hm _ =>
    refine h.closing_goto (t := a.actor) ((SameRefs.refl s).goto _ p) rfl (fun i hi => ?_)
      (fun b => ?_) fun b => .inl rfl
    · cases hm with
      | keep hpc => obtain hpc | hpc := hpc <;> simp [hpc, Pc.finishing] at hi
      | ilock hpc _ | iput hpc _ | ialloc hpc _ | loaded hpc _ | count hpc _ _ | trunc hpc _
      | next hpc => simp [hpc, Pc.finishing] at hi
    · cases hm <;> simp
  | @lock t i p hpc hlock =>
    refine h.closing_goto (t := t) (p := p) (.goto (sameRefs_setEntry ?_ ?_) _ _) rfl
      (fun j hj => ?_) (fun b => ?_) fun b => .inl rfl
    · rfl
    · rfl
    · obtain ⟨hpc, -⟩ | ⟨hpc, -⟩ := hpc <;> simp [hpc, Pc.finishing] at hj
    · obtain ⟨-, rfl⟩ | ⟨-, rfl⟩ := hpc <;> simp
  | @load t i hpc _ =>
    refine h.closing_goto (t := t) (p := .user) (.goto (sameRefs_setEntry ?_ ?_) _ _) rfl
      (fun j hj => ?_) (fun b => by simp) fun b => .inl rfl
    · rfl
    · rfl
    · simp [hpc, Pc.finishing] at hj
  | iunlock hl _ | modify hl _ =>
    refine h.closing_congr (sameRefs_setEntry ?_ ?_) (fun _ _ => id) (fun _ _ => id)
      fun b => .inl rfl
    · rfl
    · rfl
  | @iupdate t i hl =>
    obtain ⟨-, hno⟩ := h.not_closing_of_held ((h.calls t).locks i hl.2)
      (by simp [hl.1, Pc.finishing])
    refine h.closing_congr ((SameRefs.refl s).setDinode _ _) (fun _ _ => id) (fun _ _ => id)
      fun b => ?_
    by_cases hb : b = (s.entry i).ino
    · subst hb
      refine .inr ⟨fun hfree => absurd hfree ?_, hno⟩
      rw [Icache.setDinode_self]
      exact (h.entry_of_locks hl).2.1
    · exact .inl (s.setDinode_of_ne hb _)
  | @trunc t i d hpc hd =>
    obtain ⟨htype, hno⟩ := h.not_closing_of_held ((h.calls t).uses i (by rw [hpc]; rfl))
      (by simp [hpc, Pc.finishing])
    have hok := h.entry_of_inside hpc rfl (if_pos rfl)
    refine h.closing_goto (t := t) (p := .free i)
      (.goto (.setDinode (sameRefs_setEntry ?_ ?_) _ _) _ _)
      rfl (fun j hj => ?_) (fun b => by simp) fun b => ?_
    · rfl
    · rfl
    · simp [hpc, Pc.finishing] at hj
    · by_cases hb : b = (s.entry i).ino
      · subst hb
        refine .inr ⟨fun hfree => absurd hfree ?_, hno⟩
        simpa [hd, hok.2.1] using htype
      · exact .inl (Icache.setDinode_of_ne _ hb _)
  | @free t i d hpc hd =>
    have hheld := (h.calls t).uses i (by rw [hpc]; rfl)
    obtain ⟨htype, hno⟩ := h.not_closing_of_held hheld (by simp [hpc, Pc.finishing])
    have hok := h.entry_of_inside hpc rfl (if_pos rfl)
    refine h.closing_goto (t := t) (p := .invalid i)
      (.goto (.setDinode (sameRefs_setEntry ?_ ?_) _ _) _ _) rfl (fun j hj => ?_) (fun b => by simp)
      fun b => ?_
    · rfl
    · rfl
    · simp [hpc, Pc.finishing] at hj
    · by_cases hb : b = (s.entry i).ino
      · subst hb
        refine .inr ⟨fun _ j hpos hj => ?_, hno⟩
        have hji : j = i := by
          by_contra hji
          simp only [Icache.goto_entry, Icache.setDinode_entry, Icache.setEntry_of_ne s hji]
            at hpos hj
          exact hji (h.refs.uniq j i hpos (h.refs.ref_pos hheld) hj)
        subst hji
        exact ⟨by simpa using hok.2.2.2.2, t, by simp [Pc.finishing]⟩
      · exact .inl (Icache.setDinode_of_ne _ hb _)
  | @invalid t i hpc =>
    refine h.closing_goto (t := t) (p := .release i true) (.goto (sameRefs_setEntry ?_ ?_) _ _) rfl
      (fun j hj => ?_) (fun b => by simp) fun b => .inl rfl
    · rfl
    · rfl
    · simpa [hpc, Pc.finishing] using hj
  | @release t i f hpc =>
    refine h.closing_goto (t := t) (p := .drop i f) (.goto (sameRefs_setEntry ?_ ?_) _ _) rfl
      (fun j hj => ?_) (fun b => by simp) fun b => .inl rfl
    · rfl
    · rfl
    · cases f with
      | true => simpa [hpc, Pc.finishing] using hj
      | false => simp [hpc, Pc.finishing] at hj
  | @drop t i f hpc =>
    have hc : ∀ b, Closing s b → Closing (((s.setEntry i
        { s.entry i with ref := (s.entry i).ref - 1 }).setHeld t i (s.held t i - 1)).goto t .user)
        b := by
      intro b hb j hpos hj
      by_cases hji : j = i
      · subst hji
        simp only [Icache.goto_entry, Icache.setHeld_entry, Icache.setEntry_self] at hpos hj
        have hone := (hb j (by omega) hj).1
        omega
      · simp only [Icache.goto_entry, Icache.setHeld_entry, Icache.setEntry_of_ne s hji]
          at hpos hj ⊢
        obtain ⟨hone, u, hu⟩ := hb j hpos hj
        have hut : u ≠ t := by
          rintro rfl
          have hij := Pc.inode_of_finishing hu
          rw [hpc] at hij
          exact hji (Option.some.inj hij).symm
        exact ⟨hone, u, by rwa [Icache.goto_of_ne _ hut]⟩
    refine ⟨fun b hb => hc b (h.dead b hb), fun u b hu => ?_⟩
    have hold : ∀ v, (((s.setEntry i { s.entry i with ref := (s.entry i).ref - 1 }).setHeld t i
        (s.held t i - 1)).goto t .user).pc v = .fetch b → s.pc v = .fetch b := by
      intro v hv
      by_cases hvt : v = t
      · subst hvt
        simp at hv
      · rwa [Icache.goto_of_ne _ hvt] at hv
    have hf := h.fetch u b (hold u hu)
    exact ⟨hf.type, hf.nlink, hc b hf.closing, fun v hv => hf.alone v (hold v hv)⟩
  | @take t ty b hpc hfree =>
    have hold : ∀ v ≠ t, ((s.setDinode b (.fresh ty)).goto t (.fetch b)).pc v = s.pc v :=
      fun v hv => Icache.goto_of_ne _ hv _
    have hc : ∀ c, Closing s c → Closing ((s.setDinode b (.fresh ty)).goto t (.fetch b)) c := by
      refine fun c hc => hc.congr (fun _ _ => rfl) (fun _ => rfl) fun u i hu => ?_
      have hut : u ≠ t := by
        rintro rfl
        simp [hpc, Pc.finishing] at hu
      rwa [hold u hut]
    have hnone : ∀ v, s.pc v ≠ .fetch b := fun v hv => (h.fetch v b hv).type hfree
    refine ⟨fun c hcfree => ?_, fun u c hu => ?_⟩
    · by_cases hcb : c = b
      · subst hcb
        simp [(h.calls t).typed ty c hpc] at hcfree
      · rw [Icache.goto_dinode, s.setDinode_of_ne hcb] at hcfree
        exact hc c (h.dead c hcfree)
    · by_cases hut : u = t
      · subst hut
        rw [Icache.goto_self] at hu
        cases hu
        refine ⟨?_, by simp, hc b (h.dead b hfree), fun v hv => ?_⟩
        · simpa using (h.calls u).typed ty b hpc
        · by_contra hvt
          rw [hold v hvt] at hv
          exact hnone v hv
      · rw [hold u hut] at hu
        have hcb : c ≠ b := fun hcb => hnone u (hcb ▸ hu)
        have hf := h.fetch u c hu
        have hsame : ((s.setDinode b (.fresh ty)).goto t (.fetch b)).dinode c = s.dinode c :=
          s.setDinode_of_ne hcb _
        refine ⟨by rw [hsame]; exact hf.type, by rw [hsame]; exact hf.nlink, hc c hf.closing,
          fun v hv => ?_⟩
        by_cases hvt : v = t
        · subst hvt
          rw [Icache.goto_self] at hv
          cases hv
          exact absurd rfl hcb
        · rw [hold v hvt] at hv
          exact hf.alone v hv
  | @fetch t b s₁ hpc hget =>
    have hdin : s₁.dinode = s.dinode := by cases hget <;> rfl
    have hpcs : s₁.pc = s.pc := by cases hget <;> rfl
    have hf := h.fetch t b hpc
    have hc : ∀ c ≠ b, Closing s c → Closing (s₁.goto t .user) c := by
      refine fun c hcb hc =>
        (hc.iget hget hcb).congr (fun _ _ => rfl) (fun _ => rfl) fun u i hu => ?_
      have hut : u ≠ t := by
        rintro rfl
        simp [hpcs, hpc, Pc.finishing] at hu
      rwa [Icache.goto_of_ne _ hut]
    have hold : ∀ v c, (s₁.goto t .user).pc v = .fetch c → v ≠ t ∧ s.pc v = .fetch c := by
      intro v c hv
      by_cases hvt : v = t
      · subst hvt
        simp at hv
      · rw [Icache.goto_of_ne _ hvt, hpcs] at hv
        exact ⟨hvt, hv⟩
    refine ⟨fun c hcfree => ?_, fun u c hu => ?_⟩
    · rw [Icache.goto_dinode, hdin] at hcfree
      exact hc c (fun hcb => hf.type (hcb ▸ hcfree)) (h.dead c hcfree)
    · obtain ⟨hut, hu⟩ := hold u c hu
      have hcb : c ≠ b := by
        rintro rfl
        exact hut (hf.alone u hu)
      have hg := h.fetch u c hu
      exact ⟨by rw [Icache.goto_dinode, hdin]; exact hg.type,
        by rw [Icache.goto_dinode, hdin]; exact hg.nlink, hc c hcb hg.closing,
        fun v hv => hg.alone v (hold v c hv).2⟩

/-- **The invariant is kept by every step.** -/
lemma IcacheOk.step {s s' : Icache n} {a : IcacheAct n} (h : IcacheOk s)
    (ht : IcacheTrans s a s') : IcacheOk s' where
  refs := refsOk_of_trans h.refs (fun t i f hpc => (h.calls t).uses i (by rw [hpc]; rfl)) ht
  calls := callOk_of_trans h.calls ht
  entries := entries_of_trans h ht
  dead := (closingOk_of_trans h ht).dead
  fetch := (closingOk_of_trans h ht).fetch

lemma icacheOk_init (d : Ino → Dinode) : IcacheOk (Icache.init d : Icache n) where
  refs := ⟨fun i j hi => absurd hi (by simp [Icache.init]), fun i => by simp [Icache.init]⟩
  calls t := ⟨by simp [Icache.init, Pc.inode], by simp [Icache.init],
    by simp [Icache.init, Pc.inside], by simp [Icache.init], by simp [Icache.init]⟩
  entries i hi := absurd hi (by simp [Icache.init])
  dead a _ i hi := absurd hi (by simp [Icache.init])
  fetch t a hpc := absurd hpc (by simp [Icache.init])

lemma icacheOk_of_run {ninodes : ℕ} {d : Ino → Dinode} {s : Icache n}
    {tr : List (Icache n × IcacheAct n)} (h : Run (icacheStep ninodes) (.init d) tr s) :
    IcacheOk s :=
  h.invariant (icacheOk_init d) fun _ _ _ hok hs => hok.step (icacheTrans_of_step hs)

end Xv6.Fs
