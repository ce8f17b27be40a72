import Xv6.Fs.Icache
import Xv6.Transition.Tally

/-!
References to cached inodes.

* `RefsOk`: one entry for each inode, and `ref` counts the references.
* `CallOk`: a process in a call holds a reference and, between `acquiresleep` and
  `releasesleep`, the lock.
-/

namespace Xv6.Fs

open Transition

variable {n : ℕ}

/-! ### Counting references -/

structure RefsOk (s : Icache n) : Prop where
  uniq : ∀ i j, 0 < (s.entry i).ref → 0 < (s.entry j).ref →
    (s.entry i).ino = (s.entry j).ino → i = j
  refs : ∀ i, (s.entry i).ref = ∑ t, s.held t i

/-- No reference comes or goes. -/
structure SameRefs (s s' : Icache n) : Prop where
  ref : ∀ i, (s'.entry i).ref = (s.entry i).ref
  ino : ∀ i, (s'.entry i).ino = (s.entry i).ino
  held : s'.held = s.held

lemma sameRefs_setEntry {s : Icache n} {i : InodeId} {e : Inode n}
    (href : e.ref = (s.entry i).ref) (hino : e.ino = (s.entry i).ino) :
    SameRefs s (s.setEntry i e) := by
  refine ⟨fun j => ?_, fun j => ?_, rfl⟩
  all_goals
    by_cases hj : j = i
    · subst hj
      simpa
    · simp [hj]

namespace RefsOk

variable {s s' : Icache n} {t u : Tid n} {i j : InodeId} {a : Ino}

lemma congr (h : RefsOk s) (hs : SameRefs s s') : RefsOk s' := by
  refine ⟨fun i j hi hj hij => h.uniq i j ?_ ?_ ?_, fun i => ?_⟩
  · rwa [← hs.ref]
  · rwa [← hs.ref]
  · rwa [← hs.ino, ← hs.ino]
  · rw [hs.ref, hs.held, h.refs]

lemma held_le (h : RefsOk s) (t : Tid n) (i : InodeId) : s.held t i ≤ (s.entry i).ref := by
  rw [h.refs]
  exact Finset.single_le_sum (f := fun u => s.held u i) (fun _ _ => Nat.zero_le _)
    (Finset.mem_univ t)

lemma ref_pos (h : RefsOk s) (hheld : 0 < s.held t i) : 0 < (s.entry i).ref :=
  hheld.trans_le (h.held_le t i)

/-- The holder of the only reference. -/
lemma eq_of_ref_eq_one (h : RefsOk s) (href : (s.entry i).ref = 1) (ht : 0 < s.held t i)
    (hu : 0 < s.held u i) : u = t := by
  by_contra hne
  have htwo : s.held t i + s.held u i ≤ ∑ v, s.held v i := by
    rw [← Finset.sum_pair (Ne.symm hne) (f := fun v => s.held v i)]
    exact Finset.sum_le_univ_sum_of_nonneg fun _ => Nat.zero_le _
  have hsum := h.refs i
  omega

end RefsOk

/-- The references to one inode after a process's number has changed. -/
lemma sum_setHeld (s : Icache n) (t : Tid n) (i : InodeId) (k : ℕ) :
    ∑ u, (s.setHeld t i k).held u i + s.held t i = ∑ u, s.held u i + k := by
  rw [← sum_update_add (fun u => s.held u i) t k]
  refine congrArg (· + s.held t i) (Finset.sum_congr rfl fun u _ => ?_)
  by_cases hu : u = t
  · subst hu
    simp
  · rw [s.setHeld_of_ne (.inl hu), Function.update_of_ne hu]

lemma sum_setHeld_of_ne (s : Icache n) (t : Tid n) {i j : InodeId} (hj : j ≠ i) (k : ℕ) :
    ∑ u, (s.setHeld t i k).held u j = ∑ u, s.held u j :=
  Finset.sum_congr rfl fun _ _ => s.setHeld_of_ne (.inr hj) k

namespace RefsOk

variable {s s' : Icache n} {t u : Tid n} {i j : InodeId} {a : Ino}

/-- A process gets or gives up references, and the entry counts them. -/
lemma recount {r k : ℕ} (h : RefsOk s) (hi : 0 < (s.entry i).ref)
    (hr : r + s.held t i = (s.entry i).ref + k) :
    RefsOk ((s.setEntry i { s.entry i with ref := r }).setHeld t i k) := by
  have hino : ∀ j, ((s.setEntry i { s.entry i with ref := r }).entry j).ino = (s.entry j).ino := by
    intro j
    by_cases hj : j = i
    · subst hj
      simp
    · simp [hj]
  have hpos : ∀ j, 0 < ((s.setEntry i { s.entry i with ref := r }).entry j).ref →
      0 < (s.entry j).ref := by
    intro j hpos
    by_cases hj : j = i
    · rwa [hj]
    · simpa [hj] using hpos
  refine ⟨fun j k hj hk hjk => ?_, fun j => ?_⟩
  · rw [Icache.setHeld_entry, hino, hino] at hjk
    exact h.uniq j k (hpos j hj) (hpos k hk) hjk
  · by_cases hj : j = i
    · subst hj
      have hsum := sum_setHeld s t j k
      have href := h.refs j
      simp only [Icache.setHeld_entry, Icache.setEntry_self]
      change _ = ∑ u, (s.setHeld t j k).held u j
      omega
    · simp only [Icache.setHeld_entry, Icache.setEntry_of_ne s hj]
      exact (h.refs j).trans (sum_setHeld_of_ne s t hj k).symm

lemma addRef (h : RefsOk s) (hi : 0 < (s.entry i).ref) (t : Tid n) : RefsOk (s.addRef t i) :=
  h.recount hi (by omega)

lemma recycle (h : RefsOk s) (hnone : ∀ j, 0 < (s.entry j).ref → (s.entry j).ino ≠ a)
    (hi : (s.entry i).ref = 0) (t : Tid n) : RefsOk (s.recycle t i a) := by
  have hself : (s.recycle t i a).entry i
      = { s.entry i with ino := a, ref := 1, valid := false } := by
    simp [Icache.recycle]
  have hother : ∀ j ≠ i, (s.recycle t i a).entry j = s.entry j := by
    intro j hj
    simp [Icache.recycle, hj]
  refine ⟨fun j k hj hk hjk => ?_, fun j => ?_⟩
  · by_cases hji : j = i <;> by_cases hki : k = i
    · rw [hji, hki]
    · rw [hji, hself, hother k hki] at hjk
      rw [hother k hki] at hk
      exact absurd hjk.symm (hnone k hk)
    · rw [hki, hself, hother j hji] at hjk
      rw [hother j hji] at hj
      exact absurd hjk (hnone j hj)
    · rw [hother j hji] at hj hjk
      rw [hother k hki] at hk hjk
      exact h.uniq j k hj hk hjk
  · by_cases hj : j = i
    · subst hj
      have hsum := sum_setHeld s t j (s.held t j + 1)
      have href := h.refs j
      rw [hself]
      change 1 = ∑ u, (s.setHeld t j (s.held t j + 1)).held u j
      omega
    · have hsum := sum_setHeld_of_ne s t hj (s.held t i + 1)
      rw [hother j hj]
      exact (h.refs j).trans hsum.symm

lemma iget (h : RefsOk s) (hget : IgetTo s t a s') : RefsOk s' := by
  cases hget with
  | found href _ => exact h.addRef href t
  | recycled hnone href => exact h.recycle hnone href t

lemma give (h : RefsOk s) (hheld : 0 < s.held t i) (hne : u ≠ t) :
    RefsOk ((s.setHeld t i (s.held t i - 1)).setHeld u i (s.held u i + 1)) := by
  refine ⟨h.uniq, fun j => (h.refs j).trans ?_⟩
  by_cases hj : j = i
  · subst hj
    have hless := sum_setHeld s t j (s.held t j - 1)
    have hmore := sum_setHeld (s.setHeld t j (s.held t j - 1)) u j (s.held u j + 1)
    rw [s.setHeld_of_ne (.inl hne)] at hmore
    omega
  · rw [sum_setHeld_of_ne _ _ hj, sum_setHeld_of_ne _ _ hj]

lemma drop (h : RefsOk s) (hheld : 0 < s.held t i) :
    RefsOk ((s.setEntry i { s.entry i with ref := (s.entry i).ref - 1 }).setHeld t i
      (s.held t i - 1)) := by
  have hpos := h.ref_pos hheld
  exact h.recount hpos (by omega)

end RefsOk

lemma SameRefs.goto {s s' : Icache n} (h : SameRefs s s') (t : Tid n) (p : Pc) :
    SameRefs s (s'.goto t p) :=
  ⟨h.ref, h.ino, h.held⟩

lemma SameRefs.setDinode {s s' : Icache n} (h : SameRefs s s') (a : Ino) (d : Dinode) :
    SameRefs s (s'.setDinode a d) :=
  ⟨h.ref, h.ino, h.held⟩

lemma SameRefs.refl (s : Icache n) : SameRefs s s := ⟨fun _ => rfl, fun _ => rfl, rfl⟩

lemma refsOk_of_trans {s s' : Icache n} {a : IcacheAct n} (h : RefsOk s) (hc : ∀ t i f,
    s.pc t = .drop i f → 0 < s.held t i) (ht : IcacheTrans s a s') : RefsOk s' := by
  cases ht with
  | iget _ _ hget => exact h.iget hget
  | idup _ hheld => exact h.addRef (h.ref_pos hheld) _
  | give _ hheld _ hne => exact h.give hheld hne
  | move _ _ => exact h.congr ((SameRefs.refl s).goto _ _)
  | lock _ _ | load _ _ | invalid _ | release _ =>
    refine h.congr (.goto (sameRefs_setEntry ?_ ?_) _ _) <;> rfl
  | iunlock _ _ | modify _ _ => refine h.congr (sameRefs_setEntry ?_ ?_) <;> rfl
  | iupdate _ => exact h.congr ((SameRefs.refl s).setDinode _ _)
  | trunc _ _ | free _ _ =>
    refine h.congr (.goto (.setDinode (sameRefs_setEntry ?_ ?_) _ _) _ _) <;> rfl
  | @drop t i f hpc =>
    exact (h.drop (hc t i f hpc)).congr ((SameRefs.refl _).goto _ _)
  | take _ _ => exact h.congr (((SameRefs.refl s).setDinode _ _).goto _ _)
  | fetch _ hget => exact (h.iget hget).congr ((SameRefs.refl _).goto _ _)

/-! ### Calls under way -/

namespace Pc

/-- The inode that a call of `ilock` or `iput` is about. -/
def inode : Pc → Option InodeId
  | .ilock i | .load i | .iput i | .test i | .count i | .trunc i | .free i | .invalid i
  | .release i _ | .drop i _ => some i
  | .user | .ialloc _ _ | .fetch _ => none

/-- The inode that the call has locked. -/
def inside : Pc → Option InodeId
  | .load i | .test i | .count i | .trunc i | .free i | .invalid i | .release i _ => some i
  | .user | .ilock _ | .iput _ | .drop _ _ | .ialloc _ _ | .fetch _ => none

/-- The call has freed the inode. -/
def finishing : Pc → Option InodeId
  | .invalid i | .release i true | .drop i true => some i
  | _ => none

lemma inode_of_inside {p : Pc} {i : InodeId} (h : p.inside = some i) : p.inode = some i := by
  cases p <;> simp_all [inside, inode]

lemma inode_of_finishing {p : Pc} {i : InodeId} (h : p.finishing = some i) : p.inode = some i := by
  unfold finishing at h
  split at h <;> simp_all [inode]

lemma finishing_eq_some {p : Pc} {i : InodeId} (h : p.finishing = some i) :
    p = .invalid i ∨ p = .release i true ∨ p = .drop i true := by
  unfold finishing at h
  split at h <;> simp_all

end Pc

/-- What holds of a process. -/
structure CallOk (s : Icache n) (t : Tid n) : Prop where
  uses : ∀ i, (s.pc t).inode = some i → 0 < s.held t i
  locks : ∀ i, (s.entry i).lock = some t → 0 < s.held t i
  inside : ∀ i, (s.pc t).inside = some i → (s.entry i).lock = some t
  dropped : ∀ i f, s.pc t = .drop i f → (s.entry i).lock ≠ some t
  typed : ∀ ty a, s.pc t = .ialloc ty a → ty ≠ .free

namespace CallOk

variable {s s' : Icache n} {t u : Tid n} {i : InodeId} {p : Pc}

/-- A step of another process. -/
lemma congr (h : CallOk s u) (hpc : s'.pc u = s.pc u)
    (hlock : ∀ j, (s'.entry j).lock = some u ↔ (s.entry j).lock = some u)
    (hheld : ∀ j, s.held u j ≤ s'.held u j) : CallOk s' u where
  uses j hj := (h.uses j (hpc ▸ hj)).trans_le (hheld j)
  locks j hj := (h.locks j ((hlock j).mp hj)).trans_le (hheld j)
  inside j hj := (hlock j).mpr (h.inside j (hpc ▸ hj))
  dropped j f hj hl := h.dropped j f (hpc ▸ hj) ((hlock j).mp hl)
  typed ty a hj := h.typed ty a (hpc ▸ hj)

/-- A process goes somewhere; of the others nothing changes. -/
lemma goto (h : CallOk s u) (ht : u = t → CallOk (s.goto u p) u) : CallOk (s.goto t p) u := by
  by_cases hu : u = t
  · subst hu
    exact ht rfl
  · exact h.congr (s.goto_of_ne hu p) (fun _ => Iff.rfl) fun _ => le_rfl

/-- A process goes to a place where it has no lock for its call. -/
lemma goto_outside (h : CallOk s u) (huses : ∀ i, p.inode = some i → 0 < s.held t i)
    (hin : p.inside = none) (hdrop : ∀ i f, p ≠ .drop i f)
    (hty : ∀ ty a, p = .ialloc ty a → ty ≠ .free) : CallOk (s.goto t p) u := by
  refine h.goto ?_
  rintro rfl
  exact ⟨fun i hi => huses i (by simpa using hi), h.locks, fun i hi => by simp [hin] at hi,
    fun i f hi => absurd (by simpa using hi) (hdrop i f),
      fun ty a hi => hty ty a (by simpa using hi)⟩

lemma goto_user (h : CallOk s u) : CallOk (s.goto t .user) u :=
  h.goto_outside (by simp [Pc.inode]) rfl (fun _ _ => by simp) (by simp)

/-- A process stays between `acquiresleep` and `releasesleep` of one call. -/
lemma goto_inside (h : CallOk s u) (hpc : (s.pc t).inside = some i) (hin : p.inside = some i) :
    CallOk (s.goto t p) u := by
  refine h.goto ?_
  rintro rfl
  refine ⟨fun j hj => ?_, h.locks, fun j hj => ?_, fun j f hj => ?_, fun ty a hj => ?_⟩ <;>
    rw [Icache.goto_self] at hj
  · rw [Pc.inode_of_inside hin] at hj
    cases hj
    exact h.uses i (Pc.inode_of_inside hpc)
  · rw [hin] at hj
    cases hj
    exact h.inside i hpc
  · simp [hj, Pc.inside] at hin
  · simp [hj, Pc.inside] at hin

/-- The locks stay as they are. -/
lemma of_lock (h : CallOk s t) (hpc : s'.pc = s.pc)
    (hlock : ∀ j, (s'.entry j).lock = (s.entry j).lock) (hheld : ∀ j, s.held t j ≤ s'.held t j) :
    CallOk s' t :=
  h.congr (by rw [hpc]) (fun j => by rw [hlock]) hheld

end CallOk

section CallSteps

variable {s s' : Icache n} {t u : Tid n} {i : InodeId} {p : Pc} {e : Inode n}

lemma CallOk.setEntry (h : CallOk s u) (he : e.lock = some u ↔ (s.entry i).lock = some u) :
    CallOk (s.setEntry i e) u := by
  refine h.congr rfl (fun j => ?_) fun _ => le_rfl
  by_cases hj : j = i
  · subst hj
    rwa [Icache.setEntry_self]
  · rw [Icache.setEntry_of_ne s hj]

lemma CallOk.setDinode (h : CallOk s u) (a : Ino) (d : Dinode) : CallOk (s.setDinode a d) u :=
  h.of_lock rfl (fun _ => rfl) fun _ => le_rfl

/-- A process that gets more references. -/
lemma CallOk.setHeld (h : CallOk s u) {k : ℕ} (hk : u = t → s.held u i ≤ k) :
    CallOk (s.setHeld t i k) u := by
  refine h.of_lock rfl (fun _ => rfl) fun j => ?_
  by_cases hj : u = t ∧ j = i
  · obtain ⟨rfl, rfl⟩ := hj
    simpa using hk rfl
  · rw [s.setHeld_of_ne (by tauto)]

lemma CallOk.addRef (h : CallOk s u) : CallOk (s.addRef t i) u := by
  have hentry : CallOk (s.setEntry i { s.entry i with ref := (s.entry i).ref + 1 }) u :=
    h.setEntry Iff.rfl
  exact hentry.setHeld fun hu => by simp [hu]

lemma CallOk.iget {a : Ino} (h : CallOk s u) (hget : IgetTo s t a s') : CallOk s' u := by
  cases hget with
  | found _ _ => exact h.addRef
  | @recycled i _ _ =>
    have hentry : CallOk
        (s.setEntry i { s.entry i with ino := a, ref := 1, valid := false }) u :=
      h.setEntry Iff.rfl
    exact hentry.setHeld fun hu => by simp [hu]

/-- `acquiresleep` returns. -/
lemma CallOk.lock (h : CallOk s t) (hpc : (s.pc t).inode = some i) (hp : p.inside = some i) :
    CallOk ((s.setEntry i { s.entry i with lock := some t }).goto t p) t where
  uses j hj := by
    rw [Icache.goto_self, Pc.inode_of_inside hp] at hj
    cases hj
    exact h.uses i hpc
  locks j hj := by
    by_cases hji : j = i
    · subst hji
      exact h.uses j hpc
    · exact h.locks j (by simpa [hji] using hj)
  inside j hj := by
    rw [Icache.goto_self, hp] at hj
    cases hj
    simp
  dropped j f hj := by
    rw [Icache.goto_self] at hj
    simp [hj, Pc.inside] at hp
  typed ty a hj := by
    rw [Icache.goto_self] at hj
    simp [hj, Pc.inside] at hp

/-- `releasesleep`, on the way to a place where the process needs no lock. -/
lemma CallOk.unlock (h : CallOk s t) (huses : ∀ j, p.inode = some j → 0 < s.held t j)
    (hp : p.inside = none) (hdrop : ∀ j f, p = .drop j f → j = i)
    (hty : ∀ ty a, p = .ialloc ty a → ty ≠ .free) :
    CallOk ((s.setEntry i { s.entry i with lock := none }).goto t p) t where
  uses j hj := huses j (by simpa using hj)
  locks j hj := by
    by_cases hji : j = i
    · subst hji
      simp at hj
    · exact h.locks j (by simpa [hji] using hj)
  inside j hj := by simp [hp] at hj
  dropped j f hj := by
    rw [Icache.goto_self] at hj
    have hji := hdrop j f hj
    subst hji
    simp
  typed ty a hj := hty ty a (by simpa using hj)

/-- A process without a call that has not locked the inode gives up a reference. -/
lemma CallOk.less (h : CallOk s t) (hpc : s'.pc t = .user)
    (hentry : ∀ j, (s'.entry j).lock = (s.entry j).lock)
    (hlock : (s.entry i).lock ≠ some t) (hheld : ∀ j ≠ i, s'.held t j = s.held t j) :
    CallOk s' t where
  uses j hj := by simp [hpc, Pc.inode] at hj
  locks j hj := by
    rw [hentry] at hj
    have hji : j ≠ i := fun hji => hlock (hji ▸ hj)
    rw [hheld j hji]
    exact h.locks j hj
  inside j hj := by simp [hpc, Pc.inside] at hj
  dropped j f hj := by simp [hpc] at hj
  typed ty a hj := by simp [hpc] at hj

lemma CallOk.move (h : CallOk s u) (hc : CallOk s t) (hm : MoveTo s t p) :
    CallOk (s.goto t p) u := by
  cases hm with
  | ilock _ hheld | iput _ hheld =>
    exact h.goto_outside (fun j hj => by cases hj; exact hheld) rfl (fun _ _ => by simp) (by simp)
  | ialloc _ hty =>
    refine h.goto_outside (by simp [Pc.inode]) rfl (fun _ _ => by simp) fun ty a hp => ?_
    cases hp
    exact hty
  | loaded _ _ => exact h.goto_user
  | @count i hpc _ _ | @trunc i hpc _ => exact h.goto_inside (i := i) (by rw [hpc]; rfl) rfl
  | @keep i hpc =>
    refine h.goto_inside (i := i) ?_ rfl
    obtain hpc | hpc := hpc <;> rw [hpc] <;> rfl
  | @next ty a b hpc =>
    refine h.goto_outside (by simp [Pc.inode]) rfl (fun _ _ => by simp) fun ty' a' hp => ?_
    cases hp
    exact hc.typed ty a hpc

end CallSteps

lemma callOk_of_trans {s s' : Icache n} {a : IcacheAct n} (h : ∀ u, CallOk s u)
    (ht : IcacheTrans s a s') (u : Tid n) : CallOk s' u := by
  cases ht with
  | iget _ _ hget => exact (h u).iget hget
  | idup _ _ => exact (h u).addRef
  | @give t v i hpc _ hlock hne =>
    by_cases hu : u = t
    · subst hu
      refine (h u).less (i := i) hpc (fun _ => rfl) hlock fun j hj => ?_
      rw [Icache.setHeld_of_ne _ (.inr hj), Icache.setHeld_of_ne _ (.inr hj)]
    · have hless : CallOk (s.setHeld t i (s.held t i - 1)) u := (h u).setHeld fun h => absurd h hu
      refine hless.setHeld fun huv => ?_
      subst huv
      rw [s.setHeld_of_ne (.inl hu)]
      omega
  | @move _ p hm _ => exact (h u).move (h a.actor) hm
  | @lock t i p hpc hlock =>
    by_cases hu : u = t
    · subst hu
      obtain ⟨hpc, rfl⟩ | ⟨hpc, rfl⟩ := hpc
      · exact (h u).lock (by rw [hpc]; rfl) rfl
      · exact (h u).lock (by rw [hpc]; rfl) rfl
    · exact ((h u).setEntry (by simp [hlock, Ne.symm hu])).goto fun heq => absurd heq hu
  | @load t i hpc _ =>
    have hentry : CallOk (s.setEntry i
        { s.entry i with din := s.dinode (s.entry i).ino, valid := true }) u :=
      (h u).setEntry Iff.rfl
    exact hentry.goto_user
  | @iunlock t i hl _ =>
    by_cases hu : u = t
    · subst hu
      have hun := (h u).unlock (i := i) (p := .user) (by simp [Pc.inode]) rfl (by simp) (by simp)
      refine hun.congr ?_ (fun _ => Iff.rfl) fun _ => le_rfl
      rw [Icache.goto_self]
      exact hl.1
    · refine (h u).setEntry ?_
      simp [hl.2, Ne.symm hu]
  | modify _ _ => exact (h u).setEntry Iff.rfl
  | iupdate _ => exact (h u).setDinode _ _
  | @trunc t i d hpc _ | @free t i d hpc _ =>
    have hentry : CallOk (s.setEntry i { s.entry i with din := d }) u := (h u).setEntry Iff.rfl
    exact (hentry.setDinode _ _).goto_inside (i := i) (by simp [hpc, Pc.inside]) rfl
  | @invalid t i hpc =>
    have hentry : CallOk (s.setEntry i { s.entry i with valid := false }) u :=
      (h u).setEntry Iff.rfl
    exact hentry.goto_inside (i := i) (by simp [hpc, Pc.inside]) rfl
  | @release t i f hpc =>
    have hlock : (s.entry i).lock = some t := (h t).inside i (by rw [hpc]; rfl)
    by_cases hu : u = t
    · subst hu
      refine (h u).unlock (fun j hj => ?_) rfl (fun j f hj => by cases hj; rfl) (by simp)
      cases hj
      exact (h u).uses i (by rw [hpc]; rfl)
    · exact ((h u).setEntry (by simp [hlock, Ne.symm hu])).goto fun heq => absurd heq hu
  | @drop t i f hpc =>
    by_cases hu : u = t
    · subst hu
      refine (h u).less (i := i) (by simp) (fun j => ?_) ((h u).dropped i f hpc) fun j hj => ?_
      · by_cases hj : j = i
        · subst hj
          simp
        · simp [hj]
      · rw [Icache.goto_held, Icache.setHeld_of_ne _ (.inr hj), Icache.setEntry_held]
    · have hentry : CallOk (s.setEntry i { s.entry i with ref := (s.entry i).ref - 1 }) u :=
        (h u).setEntry Iff.rfl
      exact (hentry.setHeld fun h => absurd h hu).goto_user
  | take _ _ =>
    exact ((h u).setDinode _ _).goto_outside (by simp [Pc.inode]) rfl (fun _ _ => by simp) (by simp)
  | fetch _ hget => exact ((h u).iget hget).goto_user

end Xv6.Fs
