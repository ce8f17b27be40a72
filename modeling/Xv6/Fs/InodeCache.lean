import Xv6.Fs.InodeCopies

/-!
The inode cache, seen by its callers.

* `dinode_of_run`: the dinodes are what was last written.
* `ino_of_trans`: an inode in use keeps its number.
* `Newborn`: an inode between `ialloc` and the first `ilock` of the process that called it.
* `inode_cache`: the references, the freeing of an inode, and what `ilock` shows.
-/

namespace Xv6.Fs

open Transition

variable {n : ℕ}

/-! ### What is written to a dinode -/

lemma dinode_of_trans {s s' : Icache n} {a : IcacheAct n} (ht : IcacheTrans s a s') (b : Ino) :
    s'.dinode b = (written b (s, a)).getD (s.dinode b) := by
  have hset : ∀ (c : Ino) (d : Dinode),
      Function.update s.dinode c d b = (if c = b then some d else none).getD (s.dinode b) := by
    intro c d
    by_cases hc : c = b
    · subst hc
      simp
    · simp [hc, Ne.symm hc]
  cases ht with
  | iget _ _ hget => cases hget <;> rfl
  | idup _ _ | give _ _ _ _ | iunlock _ _ | modify _ _ => rfl
  | move _ hw => simp [hw b]
  | lock hpc _ => obtain ⟨hpc, -⟩ | ⟨hpc, -⟩ := hpc <;> simp [written, hpc]
  | load hpc _ | invalid hpc | release hpc | drop hpc => simp [written, hpc]
  | iupdate _ => exact hset _ _
  | @trunc t i d hpc hd | @free t i d hpc hd =>
    simp only [written, hpc, ← hd]
    exact hset _ _
  | @take t ty c hpc hfree =>
    simp only [written, hpc]
    have hiff : (c = b ∧ (s.dinode b).type = .free) ↔ c = b :=
      ⟨fun h => h.1, fun h => ⟨h, h ▸ hfree⟩⟩
    simp only [hiff]
    exact hset _ _
  | fetch hpc hget => cases hget <;> simp [written, hpc, Icache.addRef, Icache.recycle]

variable {tr : List (Icache n × IcacheAct n)}

/-- The dinodes are what was last written. -/
lemma dinode_of_run {ninodes : ℕ} {d : Ino → Dinode} {s : Icache n}
    (h : Run (icacheStep ninodes) (.init d) tr s) (b : Ino) :
    s.dinode b = (last (written b) tr).getD (d b) := by
  refine Run.snoc_induction (P := fun tr s => s.dinode b = (last (written b) tr).getD (d b))
    rfl (fun tr s a s' _ ih hs => ?_) h
  rw [dinode_of_trans (icacheTrans_of_step hs), last_snoc, ih]
  cases written b (s, a) <;> rfl

/-- The number of an inode in use does not change. -/
lemma ino_of_trans {s s' : Icache n} {a : IcacheAct n} (ht : IcacheTrans s a s') {i : InodeId}
    (hi : 0 < (s.entry i).ref) : (s'.entry i).ino = (s.entry i).ino := by
  have hset : ∀ (j : InodeId) (e : Inode n), e.ino = (s.entry j).ino →
      ((s.setEntry j e).entry i).ino = (s.entry i).ino := by
    intro j e he
    by_cases hij : i = j
    · subst hij
      simpa
    · simp [hij]
  have hget : ∀ {t b r}, IgetTo s t b r → (r.entry i).ino = (s.entry i).ino := by
    intro t b r h
    cases h with
    | found _ _ => exact hset _ _ rfl
    | @recycled j _ href =>
      have hij : i ≠ j := by
        rintro rfl
        omega
      simp [Icache.recycle, hij]
  cases ht with
  | iget _ _ h => exact hget h
  | fetch _ h =>
    have hino := hget h
    exact hino
  | give _ _ _ _ | move _ _ | iupdate _ | take _ _ => rfl
  | idup _ _ | lock _ _ | load _ _ | iunlock _ _ | modify _ _ | trunc _ _ | free _ _ | invalid _
  | release _ | drop _ => exact hset _ _ rfl

/-! ### A new inode -/

/-- The cached inode of a process that has called `ialloc` and has not locked it yet. -/
structure Born (s : Icache n) (u : Tid n) (a : Ino) (i : InodeId) : Prop where
  ino : (s.entry i).ino = a
  held : 0 < s.held u i
  place : s.pc u = .user ∨ ∃ j, s.pc u = .ilock j ∨ s.pc u = .load j
  lock : (s.entry i).lock = some u → s.pc u = .load i
  others : ∀ t ≠ u, 0 < s.held t i → s.held t i = 1 ∧ (s.pc t).finishing = some i

/-- The dinode is as `ialloc` left it, and only the process that called `ialloc` can get
at it. -/
def Newborn (s : Icache n) (u : Tid n) (ty : InodeType) (a : Ino) : Prop :=
  s.dinode a = .fresh ty ∧ (s.pc u = .fetch a ∨ ∃ i, Born s u a i)

namespace Born

variable {s s' : Icache n} {t u : Tid n} {a b : Ino} {i j : InodeId} {ty : InodeType}

variable (h : Born s u a i)

include h

lemma finishing_ne (k : InodeId) : (s.pc u).finishing ≠ some k := by
  obtain hpc | ⟨j, hpc | hpc⟩ := h.place <;> simp [hpc, Pc.finishing]

/-- No other process uses the inode, other than to finish `iput`. -/
lemma held_eq_zero (ht : t ≠ u) (hfin : (s.pc t).finishing ≠ some i) : s.held t i = 0 := by
  by_contra hne
  exact hfin (h.others t ht (Nat.pos_of_ne_zero hne)).2

lemma ne_of_held (ht : t ≠ u) (hheld : 0 < s.held t j) (hfin : (s.pc t).finishing ≠ some j) :
    j ≠ i := by
  rintro rfl
  have hzero := h.held_eq_zero ht hfin
  omega

/-- A lookup does not find the inode. -/
lemma not_lookup (hok : IcacheOk s) (hd : s.dinode a = .fresh ty) (ht : t ≠ u)
    (hpc : s.pc t = .user) : ¬(s.Linked a ∨ s.Refers t a) := by
  have hpos := hok.refs.ref_pos h.held
  rintro (hlink | ⟨j, hheld, hino⟩)
  · have hzero : (s.current a).type = .free ∨ (s.current a).nlink = 0 := by
      unfold Icache.current
      split
      case h_2 => exact .inr (by rw [hd]; rfl)
      case h_1 k hfind =>
        obtain ⟨hkpos, hkino⟩ := Icache.find_eq_some hfind
        have hki : k = i := hok.refs.uniq k i hkpos hpos (hkino.trans h.ino.symm)
        subst hki
        split
        case isFalse => exact .inr (by rw [hd]; rfl)
        case isTrue hv =>
          have hentry := hok.entries k hpos
          rw [h.ino, hd, Icache.spot] at hentry
          cases hl : (s.entry k).lock with
          | none =>
            rw [hl] at hentry
            exact .inr (by rw [(hentry hv).1]; rfl)
          | some v =>
            rw [hl] at hentry
            by_cases hvu : v = u
            · subst hvu
              simp only [Option.map_some, h.lock hl, Pc.spot, if_true, EntryOk] at hentry
              exact .inr (by rw [(hentry hv).1]; rfl)
            · have hfin := (h.others v hvu ((hok.calls v).locks k hl)).2
              obtain hpcv | hpcv | hpcv := Pc.finishing_eq_some hfin
              · simp only [Option.map_some, hpcv, Pc.spot, if_true, EntryOk] at hentry
                exact .inl hentry.2
              · simp [hpcv, Pc.spot, EntryOk, hv] at hentry
              · exact absurd hl ((hok.calls v).dropped k true hpcv)
    obtain hzero | hzero := hzero
    · exact hlink.1 hzero
    · exact absurd hlink.2 (by omega)
  · have hji : j = i := hok.refs.uniq j i (hok.refs.ref_pos hheld) hpos (hino.trans h.ino.symm)
    exact h.ne_of_held ht hheld (by simp [hpc, Pc.finishing]) hji

/-- A step of another process that leaves the entry as it is. -/
lemma of_entry (hentry : s'.entry i = s.entry i) (hpc : ∀ v ≠ t, s'.pc v = s.pc v) (htu : t ≠ u)
    (hheld : ∀ v, s'.held v i = s.held v i) (ht : s.held t i = 0) : Born s' u a i where
  ino := by rw [hentry, h.ino]
  held := by rw [hheld]; exact h.held
  place := by rw [hpc u (Ne.symm htu)]; exact h.place
  lock hl := by
    rw [hpc u (Ne.symm htu)]
    exact h.lock (hentry ▸ hl)
  others v hv hpos := by
    rw [hheld] at hpos ⊢
    have hvt : v ≠ t := by
      rintro rfl
      omega
    rw [hpc v hvt]
    exact h.others v hv hpos

/-- A step of another process that is not finishing `iput`, on an inode it holds. -/
lemma of_held (htu : t ≠ u) (hfin : ∀ k, (s.pc t).finishing ≠ some k) (hj : 0 < s.held t j)
    (hentry : ∀ k ≠ j, s'.entry k = s.entry k) (hpc : ∀ v ≠ t, s'.pc v = s.pc v)
    (hheld : ∀ v, ∀ k ≠ j, s'.held v k = s.held v k) : Born s' u a i := by
  have hij : i ≠ j := Ne.symm (h.ne_of_held htu hj (hfin j))
  exact h.of_entry (hentry i hij) hpc htu (fun v => hheld v i hij) (h.held_eq_zero htu (hfin i))

/-- A step of another process in `iput` up to `releasesleep`. -/
lemma of_finishing (htu : t ≠ u) (hino : (s'.entry i).ino = (s.entry i).ino)
    (hlock : (s'.entry i).lock = some u → (s.entry i).lock = some u)
    (hpc : ∀ v ≠ t, s'.pc v = s.pc v) (hfin : (s'.pc t).finishing = (s.pc t).finishing)
    (hheld : s'.held = s.held) : Born s' u a i where
  ino := by rw [hino, h.ino]
  held := by rw [hheld]; exact h.held
  place := by rw [hpc u (Ne.symm htu)]; exact h.place
  lock hl := by
    rw [hpc u (Ne.symm htu)]
    exact h.lock (hlock hl)
  others v hv hpos := by
    rw [hheld] at hpos ⊢
    by_cases hvt : v = t
    · subst hvt
      rw [hfin]
      exact h.others v hv hpos
    · rw [hpc v hvt]
      exact h.others v hv hpos

/-- Another process gets a reference to another inode. -/
lemma iget (hok : IcacheOk s) (hget : IgetTo s t b s') (hb : b ≠ a) :
    s'.entry i = s.entry i ∧ (∀ v, s'.held v i = s.held v i) := by
  have hpos := hok.refs.ref_pos h.held
  cases hget with
  | @found j _ hino =>
    have hij : i ≠ j := by
      rintro rfl
      exact hb (hino.symm.trans h.ino)
    exact ⟨by simp [Icache.addRef, hij], fun v => Icache.setHeld_of_ne _ (.inr hij) _⟩
  | @recycled j _ href =>
    have hij : i ≠ j := by
      rintro rfl
      omega
    exact ⟨by simp [Icache.recycle, hij], fun v => Icache.setHeld_of_ne _ (.inr hij) _⟩

end Born

/-- **A step of another process.** -/
lemma Born.step_other {s s' : Icache n} {u : Tid n} {ty : InodeType} {a : Ino} {i : InodeId}
    {act : IcacheAct n} (h : Born s u a i) (hok : IcacheOk s) (hd : s.dinode a = .fresh ty)
    (ht : IcacheTrans s act s') (hact : act.actor ≠ u) : Born s' u a i := by
  cases ht with
  | @iget t b _ hpc hlook hget =>
    have hb : b ≠ a := by
      rintro rfl
      exact h.not_lookup hok hd hact hpc hlook
    obtain ⟨hentry, hheld⟩ := h.iget hok hget hb
    have hpcs : s'.pc = s.pc := by cases hget <;> rfl
    exact h.of_entry hentry (t := t) (fun v _ => by rw [hpcs]) hact hheld
      (h.held_eq_zero hact (by simp [hpc, Pc.finishing]))
  | @idup t j hpc hheld =>
    exact h.of_held (t := t) hact (by simp [hpc, Pc.finishing]) hheld
      (fun k hk => by simp [Icache.addRef, hk]) (fun _ _ => rfl)
      fun v k hk => Icache.setHeld_of_ne _ (.inr hk) _
  | @give t v j hpc hheld _ _ =>
    exact h.of_held (t := t) hact (by simp [hpc, Pc.finishing]) hheld (fun _ _ => rfl)
      (fun _ _ => rfl)
      fun v k hk => by rw [Icache.setHeld_of_ne _ (.inr hk), Icache.setHeld_of_ne _ (.inr hk)]
  | @move _ p hm _ =>
    refine h.of_entry (t := act.actor) rfl (fun v hv => s.goto_of_ne hv p) hact (fun _ => rfl)
      (h.held_eq_zero hact ?_)
    cases hm with
    | keep hpc => obtain hpc | hpc := hpc <;> simp [hpc, Pc.finishing]
    | ilock hpc _ | iput hpc _ | ialloc hpc _ | loaded hpc _ | count hpc _ _ | trunc hpc _
    | next hpc => simp [hpc, Pc.finishing]
  | @lock t j p hpc hlock =>
    have hplace : (∀ k, (s.pc t).finishing ≠ some k) ∧ (s.pc t).inode = some j := by
      obtain ⟨hpc, -⟩ | ⟨hpc, -⟩ := hpc <;> simp [hpc, Pc.finishing, Pc.inode]
    exact h.of_held (t := t) hact hplace.1 ((hok.calls t).uses j hplace.2)
      (fun k hk => by simp [hk]) (fun v hv => Icache.goto_of_ne _ hv _) fun _ _ _ => rfl
  | @load t j hpc _ | @trunc t j d hpc _ | @free t j d hpc _ =>
    exact h.of_held (t := t) hact (by simp [hpc, Pc.finishing])
      ((hok.calls t).uses j (by simp [hpc, Pc.inode])) (fun k hk => by simp [hk])
      (fun v hv => Icache.goto_of_ne _ hv _) fun _ _ _ => rfl
  | @iunlock t j hl _ | @modify t j d hl _ =>
    exact h.of_held (t := t) hact (by simp [hl.1, Pc.finishing]) ((hok.calls t).locks j hl.2)
      (fun k hk => by simp [hk]) (fun _ _ => rfl) fun _ _ _ => rfl
  | @iupdate t j hl =>
    exact h.of_held (t := t) hact (by simp [hl.1, Pc.finishing]) ((hok.calls t).locks j hl.2)
      (fun _ _ => rfl) (fun _ _ => rfl) fun _ _ _ => rfl
  | @invalid t j hpc =>
    refine h.of_finishing (t := t) hact ?_ ?_ (fun v hv => Icache.goto_of_ne _ hv _)
      (by simp [hpc, Pc.finishing]) rfl
    all_goals
      by_cases hij : i = j
      · subst hij
        simp
      · simp [hij]
  | @release t j f hpc =>
    refine h.of_finishing (t := t) hact ?_ ?_ (fun v hv => Icache.goto_of_ne _ hv _) ?_ rfl
    · by_cases hij : i = j
      · subst hij
        simp
      · simp [hij]
    · by_cases hij : i = j
      · subst hij
        simp
      · simp [hij]
    · rw [Icache.goto_self, hpc]
      cases f <;> rfl
  | @drop t j f hpc =>
    have hut : u ≠ t := Ne.symm hact
    by_cases hij : i = j
    · subst hij
      refine ⟨by simpa using h.ino, ?_, ?_, ?_, fun v hv hpos => ?_⟩
      · rw [Icache.goto_held, Icache.setHeld_of_ne _ (.inl hut)]
        exact h.held
      · rw [Icache.goto_of_ne _ hut]
        exact h.place
      · rw [Icache.goto_of_ne _ hut]
        exact fun hl => h.lock (by simpa using hl)
      · rw [Icache.goto_held] at hpos ⊢
        by_cases hvt : v = t
        · subst hvt
          rw [Icache.setHeld_self] at hpos
          have hone := (h.others v hv (by omega)).1
          omega
        · rw [Icache.setHeld_of_ne _ (.inl hvt)] at hpos ⊢
          rw [Icache.goto_of_ne _ hvt]
          exact h.others v hv hpos
    · refine h.of_entry (t := t) (by simp [hij]) (fun v hv => Icache.goto_of_ne _ hv _) hact
        (fun v => Icache.setHeld_of_ne _ (.inr hij) _) (h.held_eq_zero hact fun hfin => hij ?_)
      have hinode := Pc.inode_of_finishing hfin
      rw [hpc] at hinode
      exact (Option.some.inj hinode).symm
  | @take t ty' b hpc _ =>
    exact h.of_entry (t := t) rfl (fun v hv => Icache.goto_of_ne _ hv _) hact (fun _ => rfl)
      (h.held_eq_zero hact (by simp [hpc, Pc.finishing]))
  | @fetch t b s₁ hpc hget =>
    have hb : b ≠ a := by
      rintro rfl
      have hno := (hok.not_closing_of_held h.held (h.finishing_ne i)).2
      rw [h.ino] at hno
      exact hno t hpc
    obtain ⟨hentry, hheld⟩ := h.iget hok hget hb
    have hpcs : s₁.pc = s.pc := by cases hget <;> rfl
    exact h.of_entry (t := t) hentry (fun v hv => by rw [Icache.goto_of_ne _ hv, hpcs]) hact hheld
      (h.held_eq_zero hact (by simp [hpc, Pc.finishing]))

/-- A step changes the place of the process that acts. -/
lemma pc_of_trans {s s' : Icache n} {a : IcacheAct n} (ht : IcacheTrans s a s') {v : Tid n}
    (hv : v ≠ a.actor) : s'.pc v = s.pc v := by
  cases ht with
  | iget _ _ hget => cases hget <;> rfl
  | idup _ _ | give _ _ _ _ | iunlock _ _ | modify _ _ | iupdate _ => rfl
  | move _ _ | lock _ _ | load _ _ | trunc _ _ | free _ _ | invalid _ | release _ | drop _
  | take _ _ => exact Icache.goto_of_ne _ hv _
  | fetch _ hget => cases hget <;> exact Icache.goto_of_ne _ hv _

namespace Newborn

variable {ninodes : ℕ} {s s' : Icache n} {t u : Tid n} {ty : InodeType} {a : Ino} {i : InodeId}
  {act : IcacheAct n}

/-- What the process may do between its `ialloc` and the end of its `ilock`. -/
def Quiet (u : Tid n) (a : Ino) (e : Icache n × IcacheAct n) : Prop :=
  e.2.actor = u → e.1.pc u = .fetch a ∨ (∃ j, e.2 = .ilock u j) ∨ ∃ j, e.1.pc u = .ilock j

instance (u : Tid n) (a : Ino) (e : Icache n × IcacheAct n) : Decidable (Quiet u a e) :=
  inferInstanceAs (Decidable (_ → _ ∨ (∃ _, _) ∨ ∃ _, _))

lemma type (h : Newborn s u ty a) (hok : IcacheOk s) : (s.dinode a).type ≠ .free := by
  obtain ⟨-, hpc | ⟨i, hborn⟩⟩ := h
  · exact (hok.fetch u a hpc).type
  · rw [← hborn.ino]
    exact (hok.not_closing_of_held hborn.held (hborn.finishing_ne i)).1

/-- Another process, unless it is finishing `iput`, holds other inodes. -/
lemma ino_ne (h : Newborn s u ty a) (hok : IcacheOk s) (ht : t ≠ u) (hheld : 0 < s.held t i)
    (hfin : (s.pc t).finishing ≠ some i) : (s.entry i).ino ≠ a := by
  rintro rfl
  obtain ⟨-, hpc | ⟨j, hborn⟩⟩ := h
  · exact (hok.not_closing_of_held hheld hfin).2 u hpc
  · have hij : i = j := hok.refs.uniq i j (hok.refs.ref_pos hheld) (hok.refs.ref_pos hborn.held)
      hborn.ino.symm
    exact hborn.ne_of_held ht hheld hfin hij

/-- Nobody writes the dinode. -/
lemma dinode (h : Newborn s u ty a) (hok : IcacheOk s) (ht : IcacheTrans s act s')
    (hq : Quiet u a (s, act)) : s'.dinode a = s.dinode a := by
  cases ht with
  | iget _ _ hget | fetch _ hget => cases hget <;> rfl
  | idup _ _ | give _ _ _ _ | iunlock _ _ | modify _ _ | move _ _ | lock _ _ | load _ _ | invalid _
  | release _ | drop _ => rfl
  | @iupdate t i hl =>
    have htu : t ≠ u := by
      rintro rfl
      simp [Quiet, IcacheAct.actor, hl.1] at hq
    exact s.setDinode_of_ne
      (Ne.symm (h.ino_ne hok htu ((hok.calls t).locks i hl.2) (by simp [hl.1, Pc.finishing]))) _
  | @trunc t i d hpc _ | @free t i d hpc _ =>
    have htu : t ≠ u := by
      rintro rfl
      simp [Quiet, IcacheAct.actor, hpc] at hq
    exact Icache.setDinode_of_ne _ (Ne.symm (h.ino_ne hok htu
      ((hok.calls t).uses i (by simp [hpc, Pc.inode])) (by simp [hpc, Pc.finishing]))) _
  | @take t ty' b hpc hfree =>
    have hab : a ≠ b := by
      rintro rfl
      exact h.type hok hfree
    exact s.setDinode_of_ne hab _

/-- `ialloc` returns the inode that `iget` gives it. -/
lemma born_of_iget (hok : IcacheOk s) (hpc : s.pc u = .fetch a) (hget : IgetTo s u a s') :
    ∃ i, Born (s'.goto u .user) u a i := by
  have hc := (hok.fetch u a hpc).closing
  cases hget with
  | @found i href hino =>
    obtain ⟨hone, t, hfin⟩ := hc i href hino
    have ht := (hok.calls t).uses i (Pc.inode_of_finishing hfin)
    have htu : u ≠ t := by
      rintro rfl
      simp [hpc, Pc.finishing] at hfin
    refine ⟨i, by simpa [Icache.addRef] using hino, by simp [Icache.addRef], .inl (by simp),
      fun hl => ?_, fun v hv hpos => ?_⟩
    · have hl' : (s.entry i).lock = some u := by simpa [Icache.addRef] using hl
      exact absurd (hok.refs.eq_of_ref_eq_one hone ht ((hok.calls u).locks i hl')) htu
    · have hsame : ((s.addRef u i).goto u .user).held v i = s.held v i :=
        Icache.setHeld_of_ne _ (.inl hv) _
      rw [hsame] at hpos ⊢
      have hvt := hok.refs.eq_of_ref_eq_one hone ht hpos
      subst hvt
      have hle := hok.refs.held_le v i
      refine ⟨by omega, ?_⟩
      rw [Icache.goto_of_ne _ hv]
      exact hfin
  | @recycled i hnone href =>
    have hzero : ∀ v, s.held v i = 0 := by
      intro v
      have hle := hok.refs.held_le v i
      omega
    refine ⟨i, by simp [Icache.recycle], by simp [Icache.recycle], .inl (by simp),
      fun hl => ?_, fun v hv hpos => ?_⟩
    · have hl' : (s.entry i).lock = some u := by simpa [Icache.recycle] using hl
      exact absurd ((hok.calls u).locks i hl') (by simp [hzero])
    · have hsame : ((s.recycle u i a).goto u .user).held v i = s.held v i :=
        Icache.setHeld_of_ne _ (.inl hv) _
      rw [hsame, hzero] at hpos
      exact absurd hpos (lt_irrefl 0)

/-- Within a call a process can only go on. -/
lemma eq_cont (hs : icacheStep ninodes s act = some s') (hact : act.actor = u)
    (hpc : s.pc u ≠ .user) : act = .cont u := by
  subst hact
  cases act with
  | cont t => rfl
  | iget t b | idup t j | give t v j | ilock t j | iunlock t j | modify t j d | iupdate t j
  | iput t j | ialloc t dev ty =>
    rw [IcacheAct.actor] at hpc
    simp [icacheStep, Icache.Locks, hpc] at hs

/-- The process that has called `ialloc` locks the inode. -/
lemma born_step (hborn : Born s u a i) (hs : icacheStep ninodes s act = some s')
    (hq : Quiet u a (s, act)) (hact : act.actor = u) : Born s' u a i := by
  obtain hpc | ⟨j, hpc | hpc⟩ := hborn.place
  · obtain hq | ⟨j, rfl⟩ | ⟨j, hq⟩ := hq hact
    · simp [hpc] at hq
    · obtain ⟨-, ⟨⟩⟩ := Option.ite_none_right_eq_some.mp hs
      refine ⟨hborn.ino, hborn.held, .inr ⟨j, .inl (s.goto_self _)⟩, fun hl => ?_, fun v hv => ?_⟩
      · have hload := hborn.lock hl
        simp [hpc] at hload
      · rw [s.goto_of_ne hv]
        exact hborn.others v hv
    · simp [hpc] at hq
  · obtain rfl := eq_cont hs hact (by simp [hpc])
    simp only [icacheStep, Icache.cont, hpc] at hs
    obtain ⟨hlock, ⟨⟩⟩ := Option.ite_none_right_eq_some.mp hs
    by_cases hij : i = j
    · subst hij
      refine ⟨by simpa using hborn.ino, hborn.held, .inr ⟨i, .inr (Icache.goto_self _ _)⟩,
        fun _ => Icache.goto_self _ _, fun v hv => ?_⟩
      rw [Icache.goto_of_ne _ hv]
      exact hborn.others v hv
    · refine ⟨by simpa [hij] using hborn.ino, hborn.held, .inr ⟨j, .inr (Icache.goto_self _ _)⟩,
        fun hl => ?_, fun v hv => ?_⟩
      · have hload := hborn.lock (by simpa [hij] using hl)
        simp [hpc] at hload
      · rw [Icache.goto_of_ne _ hv]
        exact hborn.others v hv
  · obtain hq | ⟨k, rfl⟩ | ⟨k, hq⟩ := hq hact
    · simp [hpc] at hq
    · simp [icacheStep, hpc] at hs
    · simp [hpc] at hq

/-- **A new inode stays so until the process has locked it.** -/
lemma step (h : Newborn s u ty a) (hok : IcacheOk s) (hs : icacheStep ninodes s act = some s')
    (hq : Quiet u a (s, act)) : Newborn s' u ty a := by
  have ht := icacheTrans_of_step hs
  refine ⟨(h.dinode hok ht hq).trans h.1, ?_⟩
  obtain ⟨hd, hpc | ⟨i, hborn⟩⟩ := h <;> by_cases hact : act.actor = u
  · obtain rfl := eq_cont hs hact (by simp [hpc])
    simp only [icacheStep, Icache.cont, hpc] at hs
    obtain ⟨s₁, hget, rfl⟩ := Option.map_eq_some_iff.mp hs
    exact .inr (born_of_iget hok hpc (igetTo_of_iget hget))
  · exact .inl ((pc_of_trans ht (Ne.symm hact)).trans hpc)
  · exact .inr ⟨i, born_step hborn hs hq hact⟩
  · exact .inr ⟨i, hborn.step_other hok hd ht hact⟩

end Newborn

/-- A run of the other processes, while the process itself goes from `ialloc` to `ilock`. -/
lemma newborn_of_run {ninodes : ℕ} {s s' : Icache n} {u : Tid n} {ty : InodeType} {a : Ino}
    (h : Run (icacheStep ninodes) s tr s') (hok : IcacheOk s) (hb : Newborn s u ty a)
    (hq : ∀ e ∈ tr, Newborn.Quiet u a e) : IcacheOk s' ∧ Newborn s' u ty a := by
  induction h with
  | nil => exact ⟨hok, hb⟩
  | cons hs _ ih =>
    exact ih (hok.step (icacheTrans_of_step hs)) (hb.step hok hs (hq _ (by simp)))
      fun e he => hq e (by simp [he])

/-- The step in which `ialloc` takes a dinode. -/
lemma newborn_of_take {ninodes : ℕ} {s s' : Icache n} {u : Tid n} {ty : InodeType} {a : Ino}
    (hs : icacheStep ninodes s (.cont u) = some s') (hpc : s.pc u = .ialloc ty a)
    (hfree : (s.dinode a).type = .free) : Newborn s' u ty a := by
  simp only [icacheStep, Icache.cont, hpc] at hs
  obtain ⟨-, hs⟩ := Option.ite_none_left_eq_some.mp hs
  rw [if_pos hfree] at hs
  cases hs
  exact ⟨by simp, .inl (Icache.goto_self _ _)⟩

/-! ### The cache as its callers see it -/

/-- `ilock` leaves the inode locked and shows its dinode. -/
lemma dinode_of_load {ninodes : ℕ} {s s' : Icache n} {t : Tid n} {i : InodeId} (hok : IcacheOk s)
    (hpc : s.pc t = .load i) (hs : icacheStep ninodes s (.cont t) = some s') :
    (s'.entry i).lock = some t ∧ (s'.entry i).valid = true ∧
      (s'.entry i).din = s.dinode (s.entry i).ino := by
  have hlock := (hok.calls t).inside i (by rw [hpc]; rfl)
  have hentry := hok.entry_of_inside hpc rfl (if_pos rfl)
  simp only [icacheStep, Icache.cont, hpc] at hs
  split at hs
  case isTrue hv =>
    cases hs
    exact ⟨hlock, hv, (hentry hv).1⟩
  case isFalse =>
    obtain ⟨-, ⟨⟩⟩ := Option.ite_none_left_eq_some.mp hs
    simpa using hlock

/-- `iput` truncates and frees an inode that has no links and no other reference. -/
lemma alone_of_free {s : Icache n} {t : Tid n} {i : InodeId} (hok : IcacheOk s)
    (hpc : s.pc t = .trunc i ∨ s.pc t = .free i) :
    (s.entry i).ref = 1 ∧ s.held t i = 1 ∧ (s.entry i).din.nlink = 0 ∧
      (s.dinode (s.entry i).ino).nlink = 0 := by
  have hin : (s.pc t).inside = some i := by obtain hpc | hpc := hpc <;> rw [hpc] <;> rfl
  have hspot : (s.pc t).spot i = .doomed := by obtain hpc | hpc := hpc <;> simp [hpc, Pc.spot]
  obtain ⟨-, hd, -, hlink, href⟩ := hok.entry_of_inside rfl hin hspot
  have hheld := (hok.calls t).uses i (Pc.inode_of_inside hin)
  have hle := hok.refs.held_le t i
  exact ⟨href, by omega, by rw [hd]; exact hlink, hlink⟩

/-- Nothing but `iput` frees a dinode. -/
lemma free_of_trans {s s' : Icache n} {a : IcacheAct n} {b : Ino} (hok : IcacheOk s)
    (ht : IcacheTrans s a s') (hb : (s.dinode b).type ≠ .free) (hb' : (s'.dinode b).type = .free) :
    ∃ t i, a = .cont t ∧ s.pc t = .free i ∧ (s.entry i).ino = b := by
  have hset : ∀ {c d}, (Function.update s.dinode c d b).type = .free → d.type ≠ .free → False := by
    intro c d hd htype
    by_cases hc : b = c
    · subst hc
      exact htype (by simpa using hd)
    · exact hb (by simpa [hc] using hd)
  cases ht with
  | iget _ _ hget | fetch _ hget => cases hget <;> exact absurd hb' hb
  | idup _ _ | give _ _ _ _ | iunlock _ _ | modify _ _ | move _ _ | lock _ _ | load _ _ | invalid _
  | release _ | drop _ => exact absurd hb' hb
  | iupdate hl => exact (hset hb' (hok.entry_of_locks hl).2.1).elim
  | @trunc t i d hpc hd =>
    have hentry := hok.entry_of_inside hpc rfl (if_pos rfl)
    refine (hset hb' ?_).elim
    rw [hd, hentry.2.1]
    exact hentry.2.2.1
  | @free t i d hpc hd =>
    refine ⟨t, i, rfl, hpc, ?_⟩
    by_contra hne
    refine hb ?_
    rw [← hb']
    exact congrArg Dinode.type (Icache.setDinode_of_ne _ (Ne.symm hne) _).symm
  | @take t ty c hpc _ => exact (hset hb' ((hok.calls t).typed ty c hpc)).elim

/-- **The inode cache.**  In every state that processes can reach: one entry in use for each
inode; `ref` is the number of references held; an entry in use keeps its number; an inode is
truncated and freed, and by `iput` only, when one reference is left and `nlink` is 0; what
`ilock` shows is the dinode last written; and what it shows to the process that has just
called `ialloc`, whatever the others have done since, is the new dinode. -/
theorem inode_cache {ninodes : ℕ} {d : Ino → Dinode} {s : Icache n}
    {tr : List (Icache n × IcacheAct n)} (h : Run (icacheStep ninodes) (.init d) tr s) :
    (∀ i j, 0 < (s.entry i).ref → 0 < (s.entry j).ref →
      (s.entry i).ino = (s.entry j).ino → i = j) ∧
    (∀ i, (s.entry i).ref = ∑ t, s.held t i) ∧
    (∀ a s' i, icacheStep ninodes s a = some s' → 0 < (s.entry i).ref →
      (s'.entry i).ino = (s.entry i).ino) ∧
    (∀ t i, s.pc t = .trunc i ∨ s.pc t = .free i →
      (s.entry i).ref = 1 ∧ s.held t i = 1 ∧ (s.entry i).din.nlink = 0 ∧
        (s.dinode (s.entry i).ino).nlink = 0) ∧
    (∀ a s' b, icacheStep ninodes s a = some s' → (s.dinode b).type ≠ .free →
      (s'.dinode b).type = .free →
      ∃ t i, a = .cont t ∧ s.pc t = .free i ∧ (s.entry i).ino = b) ∧
    (∀ t i s', s.pc t = .load i → icacheStep ninodes s (.cont t) = some s' →
      (s'.entry i).lock = some t ∧ (s'.entry i).valid = true ∧
        (s'.entry i).din = (last (written (s.entry i).ino) tr).getD (d (s.entry i).ino)) ∧
    (∀ tr₁ s₁ u ty tr₂ i s', tr = tr₁ ++ (s₁, .cont u) :: tr₂ →
      s₁.pc u = .ialloc ty (s.entry i).ino → (s₁.dinode (s.entry i).ino).type = .free →
      (∀ e ∈ tr₂, Newborn.Quiet u (s.entry i).ino e) → s.pc u = .load i →
      icacheStep ninodes s (.cont u) = some s' → (s'.entry i).din = .fresh ty) := by
  have hok := icacheOk_of_run h
  refine ⟨hok.refs.uniq, hok.refs.refs,
    fun a s' i hs hi => ino_of_trans (icacheTrans_of_step hs) hi,
    fun t i hpc => alone_of_free hok hpc,
    fun a s' b hs => free_of_trans hok (icacheTrans_of_step hs), fun t i s' hpc hs => ?_,
    fun tr₁ s₁ u ty tr₂ i s' htr hpc hfree hq hload hs => ?_⟩
  · obtain ⟨hlock, hvalid, hdin⟩ := dinode_of_load hok hpc hs
    exact ⟨hlock, hvalid, hdin.trans (dinode_of_run h _)⟩
  · subst htr
    obtain ⟨s₂, h1, htake, h2⟩ := h.split_cons
    have hok₂ := (icacheOk_of_run h1).step (icacheTrans_of_step htake)
    obtain ⟨-, hnew⟩ := newborn_of_run h2 hok₂ (newborn_of_take htake hpc hfree) hq
    exact (dinode_of_load hok hload hs).2.2.trans hnew.1

/-- A disk with a directory and a file with one link. -/
def oneFile : Ino → Dinode := fun a =>
  if a = (1, 1) then { Dinode.fresh .dir with nlink := 1 }
  else if a = (1, 2) then { Dinode.fresh .file with nlink := 1, size := 7 }
  else .fresh .free

/-- Process `t` unlinks the file and is in the middle of freeing it when process `u` is about
to look at its dinode in `ialloc`. -/
def freeing (t u : Tid n) (i : InodeId) : List (IcacheAct n) :=
  [.iget t (1, 2), .ilock t i, .cont t, .cont t,
    .modify t i { Dinode.fresh .file with size := 7 }, .iupdate t i, .iunlock t i, .iput t i,
    .cont t, .cont t, .cont t, .cont t, .cont t, .ialloc u 1 .file, .cont u]

/-- `u` has taken the dinode; `t` still has to clear `valid`, to unlock the inode and to drop
its reference, and has not done the last when `u` gets the lock. -/
def overlapping (t u : Tid n) (i : InodeId) : List (IcacheAct n) :=
  [.cont u, .ilock u i, .cont t, .cont t, .cont u]

theorem inode_cache_overlapping :
    ∃ (tr : List (Icache 1 × IcacheAct 1)) (s s' : Icache 1),
      Run (icacheStep 4) (.init oneFile) tr s ∧ icacheStep 4 s (.cont 1) = some s' ∧
        s.pc 0 = .drop 0 true ∧ (s.entry 0).ref = 2 ∧ (s.entry 0).din.size = 0 ∧
        (s'.entry 0).din = .fresh .file := by
  obtain ⟨s₁, hs₁, hpc, hfree, s₂, htake, hquiet, s, hs, hload, hino, hdrop, href, hsize, hlast⟩ :
      ∃ s₁, exec (icacheStep 4) (.init oneFile) (freeing (0 : Tid 1) 1 0) = some s₁ ∧
        s₁.pc 1 = .ialloc .file (1, 2) ∧ (s₁.dinode (1, 2)).type = .free ∧
        ∃ s₂, icacheStep 4 s₁ (.cont 1) = some s₂ ∧
          (∀ e ∈ traceOf (icacheStep 4) s₂ (overlapping 0 1 0), Newborn.Quiet 1 (1, 2) e) ∧
          ∃ s, exec (icacheStep 4) s₂ (overlapping 0 1 0) = some s ∧
            s.pc 1 = .load 0 ∧ (s.entry 0).ino = (1, 2) ∧ s.pc 0 = .drop 0 true ∧
            (s.entry 0).ref = 2 ∧ (s.entry 0).din.size = 0 ∧
            (icacheStep 4 s (.cont 1)).isSome := by
    decide +kernel
  obtain ⟨s', hs'⟩ := Option.isSome_iff_exists.mp hlast
  have hrun := (run_traceOf hs₁).append (.cons htake (run_traceOf hs))
  have hall := inode_cache hrun
  obtain ⟨-, -, -, -, -, -, hnew⟩ := hall
  exact ⟨_, s, s', hrun, hs', hdrop, href, hsize,
    hnew _ s₁ 1 .file _ 0 s' rfl (by rw [hino]; exact hpc) (by rw [hino]; exact hfree)
      (by rw [hino]; exact hquiet) hload hs'⟩

end Xv6.Fs
