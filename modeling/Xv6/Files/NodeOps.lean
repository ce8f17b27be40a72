import Xv6.Files.Calls
import Xv6.Files.Nodes

/-!
Operations on a locked file (`readi`, `writei`, `iupdate`) and new files (`ialloc`).

* `Node.read`, `Node.write`: what reading and writing mean for a file; `Node.write_append`: a write
  behind a write is one write.
* `Midcall.change`: the dinode of a locked inode is changed, in the cache and on the disk.
* `readi_spec`, `writei_spec`, `addLinks_spec`, `ialloc_spec`.
-/

namespace Xv6.Files

open Xv6.Fs Transition Function

namespace Node

/-- Bytes of a file; `none` for an offset that is out of range. -/
def read (x : Node) (off n : ℕ) : Option (List ℕ) :=
  if x.size < off ∨ (off + n) % 2 ^ 32 < off then none
  else some ((List.range (if x.size < off + n then x.size - off else n)).map
    fun j => x.byte (off + j))

/-- The file with bytes written to it; `none` if they are out of range. -/
def write (x : Node) (src : List ℕ) (off : ℕ) : Option Node :=
  if x.size < off ∨ (off + src.length) % 2 ^ 32 < off ∨ MAXFILE * BSIZE < off + src.length then none
  else
    some { x with
      size := max x.size (off + src.length)
      byte := fun o => if off ≤ o ∧ o < off + src.length then src.getD (o - off) 0 else x.byte o }

variable {x y z : Node} {a b : List ℕ} {off : ℕ}

lemma write_eq_some : x.write a off = some y ↔ off ≤ x.size ∧ off + a.length ≤ MAXFILE * BSIZE ∧
    y = { x with
      size := max x.size (off + a.length)
      byte := fun o => if off ≤ o ∧ o < off + a.length then a.getD (o - off) 0 else x.byte o } := by
  unfold write
  split
  · next hout =>
    simp only [reduceCtorEq, false_iff]
    rintro ⟨hsize, hmax, -⟩
    have hlt : MAXFILE * BSIZE < 2 ^ 32 := by decide
    rw [Nat.mod_eq_of_lt (by omega)] at hout
    omega
  · next hin =>
    simp only [not_or, not_lt] at hin
    simp only [Option.some.injEq, hin.1, hin.2.2, true_and]
    exact eq_comm

/-- Nothing is written. -/
lemma write_nil (hoff : off ≤ x.size) (hsize : x.size ≤ MAXFILE * BSIZE) :
    x.write [] off = some x := by
  refine write_eq_some.mpr ⟨hoff, hoff.trans hsize, ?_⟩
  refine Node.ext rfl rfl rfl rfl (max_eq_left hoff).symm (funext fun o => ?_)
  exact (if_neg (by simp)).symm

/-- **A write behind a write is one write.** -/
lemma write_append (ha : x.write a off = some y) (hb : y.write b (off + a.length) = some z) :
    x.write (a ++ b) off = some z := by
  obtain ⟨hoff, -, rfl⟩ := write_eq_some.mp ha
  obtain ⟨-, hmax, rfl⟩ := write_eq_some.mp hb
  refine write_eq_some.mpr ⟨hoff, by rwa [List.length_append, ← Nat.add_assoc], ?_⟩
  refine Node.ext rfl rfl rfl rfl ?_ (funext fun o => ?_)
  · simp only [List.length_append]
    omega
  · simp only [List.length_append]
    by_cases h₁ : off ≤ o ∧ o < off + a.length
    · rw [if_neg (by omega), if_pos h₁, if_pos (by omega), List.getD_append _ _ _ _ (by omega)]
    · by_cases h₂ : off + a.length ≤ o ∧ o < off + a.length + b.length
      · rw [if_pos h₂, if_pos (by omega), List.getD_append_right _ _ _ _ (by omega), Nat.sub_sub]
      · rw [if_neg h₂, if_neg h₁, if_neg (by omega)]

end Node

variable {d : Dinode}

variable {data data' : ℕ → Bytes}

lemma nodeOf_congr (h : d.type ≠ .free → ∀ o < d.size, byteAt data' d o = byteAt data d o) :
    nodeOf data' d = nodeOf data d := by
  unfold nodeOf
  split
  · rfl
  · next htype =>
    congr 1
    funext o
    split
    · exact h htype o ‹_›
    · rfl

/-- The files are in the data area. -/
lemma Sound.nodeOf_of_data {sb : Superblock} {D : ℕ → Dinode} {bitmap : ℕ → ℕ}
    (h : Sound sb D bitmap data) (hdata : ∀ b, sb.nmeta ≤ b → data' b = data b) (i : ℕ) :
    nodeOf data' (D i) = nodeOf data (D i) :=
  nodeOf_congr fun hi _ ho => h.byteAt_of_data hdata hi
    (h.full i hi _ ((Nat.div_mul_le_self _ BSIZE).trans_lt ho))

variable {sb : Superblock} {t : Fs} {k : Ip} {B : Ip → Inode} {N : ℕ → Node} {H : List (Ip × ℕ)}
  {L : Set Ip} {i : ℕ} {good : Prop}

variable {u : Fs}

/-- What is not about inodes and blocks does not matter. -/
lemma Midcall.congr (h : Midcall sb B N H L t) (hD : u.dinode = t.dinode)
    (hB : u.bitmap = t.bitmap) (hdata : u.data = t.data) (hI : u.inode = t.inode)
    (hthrough : u.through = t.through) : Midcall sb B N H L u := by
  obtain ⟨D, bm, dt, I, inp, lg, th⟩ := t
  obtain ⟨D', bm', dt', I', inp', lg', th'⟩ := u
  obtain rfl : D' = D := hD
  obtain rfl : bm' = bm := hB
  obtain rfl : dt' = dt := hdata
  obtain rfl : I' = I := hI
  obtain rfl : th' = th := hthrough
  exact ⟨⟨h.wf.sound, h.wf.uniq, h.wf.sync, h.wf.held, h.wf.through⟩, h.ref, h.inum, h.held,
    h.valid, h.lock, h.node⟩

/-- **The dinode of a locked inode is changed**, in the cache and on the disk. -/
lemma Midcall.change (h : Midcall sb B N H L t) (hk : (k, i) ∈ H) (hL : k ∈ L)
    (hd : d.type ≠ .free) (hD : u.dinode = update t.dinode i d)
    (hI : u.inode = update t.inode k { t.inode k with din := d })
    (hsound : Sound sb u.dinode u.bitmap u.data) (hthrough : u.through = true)
    (hother : ∀ j ≠ i, Files.node u j = Files.node t j) :
    Midcall sb B (update N i (Files.node u i)) H L u := by
  have hpos := h.pos hk
  have hinum : (t.inode k).inum = i := h.held _ hk
  have hne : ∀ j ≠ k, 0 < (t.inode j).ref → (t.inode j).inum ≠ i := fun j hj hpos' heq =>
    hj (h.wf.uniq j k hpos' hpos (heq.trans hinum.symm))
  -- The entries of the cache differ in the copy of the dinode only.
  have hentry : ∀ j, (u.inode j).inum = (t.inode j).inum ∧ (u.inode j).ref = (t.inode j).ref ∧
      (u.inode j).lock = (t.inode j).lock ∧ (u.inode j).valid = (t.inode j).valid := by
    intro j
    rw [hI]
    by_cases hj : j = k
    · subst hj
      rw [update_self]
      exact ⟨rfl, rfl, rfl, rfl⟩
    · rw [update_of_ne hj]
      exact ⟨rfl, rfl, rfl, rfl⟩
  refine ⟨⟨hsound, fun j l hj hl hjl => ?_, fun j hj hv => ?_, fun j hj => ?_, hthrough⟩,
    fun j => ?_, fun j hj => ?_, fun x hx => ?_, fun j hj hv => ?_, fun j => ?_, fun j => ?_⟩
  · rw [(hentry j).2.1] at hj
    rw [(hentry l).2.1] at hl
    rw [(hentry j).1, (hentry l).1] at hjl
    exact h.wf.uniq j l hj hl hjl
  · rw [(hentry j).2.1] at hj
    rw [(hentry j).2.2.2] at hv
    by_cases hjk : j = k
    · subst hjk
      rw [hI, hD, update_self]
      exact ⟨by rw [hinum, update_self], hd⟩
    · rw [hI, hD, update_of_ne hjk, update_of_ne (hne j hjk hj)]
      exact h.wf.sync j hj hv
  · rw [(hentry j).2.2.1] at hj
    rw [(hentry j).2.1, (hentry j).2.2.2]
    exact h.wf.held j hj
  · rw [(hentry j).2.1]
    exact h.ref j
  · rw [(hentry j).1]
    exact h.inum j hj
  · rw [(hentry x.1).1]
    exact h.held x hx
  · rw [(hentry j).2.2.2]
    exact h.valid j hj hv
  · rw [(hentry j).2.2.1]
    exact h.lock j
  · by_cases hj : j = i
    · subst hj
      rw [update_self]
      exact .inl rfl
    · rw [hother j hj]
      unfold Loose
      rw [update_of_ne hj]
      exact h.node j

/-! ### Reading -/

namespace Midcall

lemma node_of_locked (h : Midcall sb B N H L t) (hk : (k, i) ∈ H) (hL : k ∈ L) :
    Files.node t i = N i ∧ (t.dinode i).type ≠ .free ∧ (t.inode k).din = t.dinode i :=
  h.node_of_valid hk (h.wf.held k ((h.lock k).mpr hL)).2

lemma type_of_locked (h : Midcall sb B N H L t) (hk : (k, i) ∈ H) (hL : k ∈ L) :
    (N i).type ≠ .free := by
  obtain ⟨hnode, htype, -⟩ := h.node_of_locked hk hL
  rwa [← hnode, node_type]

lemma sound_of_locked (h : Midcall sb B N H L t) (hL : k ∈ L) :
    view t k = t.dinode ∧ Sound sb (view t k) t.bitmap t.data := by
  obtain ⟨hpos, hv⟩ := h.wf.held k ((h.lock k).mpr hL)
  exact ⟨h.wf.view_eq hpos hv, h.wf.sound_view hpos hv⟩

end Midcall

/-- A locked file in terms of its dinode. -/
lemma node_eq (h : Midcall sb B N H L t) (hk : (k, i) ∈ H) (hL : k ∈ L) :
    N i = ⟨(t.inode k).din.type, (t.inode k).din.major, (t.inode k).din.minor,
      (t.inode k).din.nlink, (t.inode k).din.size,
      fun o => if o < (t.inode k).din.size then byteAt t.data (t.inode k).din o else 0⟩ := by
  obtain ⟨hnode, htype, hdin⟩ := h.node_of_locked hk hL
  rw [← hnode, hdin, node, nodeOf_of_type htype]

variable {E : Stop → Fs → Prop}

section Console

/-- The console unlocks the inode while it waits. -/
lemma unlock_spec (h : Midcall sb B N H L t) (hk : (k, i) ∈ H) (hL : k ∈ L) :
    Post (iunlock k) t
      (fun _ t' => Midcall sb B N H (L \ {k}) t' ∧ (node t' i).type ≠ .free) E := by
  have htype := (h.node_of_locked hk hL).2.1
  rw [← Set.insert_sdiff_self_of_mem hL] at h
  refine (iunlock_spec h fun hmem => hmem.2 rfl).imp fun _ t' ht' => ⟨ht'.1, ?_⟩
  rw [ht'.2.1, node_type]
  exact htype

/-- Then it locks the inode again. -/
lemma relock_spec (h : Midcall sb B N H (L \ {k}) t) (hk : (k, i) ∈ H) (hL : k ∈ L)
    (htype : (node t i).type ≠ .free) :
    Post (ilock sb k) t (fun _ t' => Midcall sb B N H L t') (Err good) := by
  refine (ilock_spec h hk fun _ => htype).imp fun _ t' ht' => ?_
  rw [← Set.insert_sdiff_self_of_mem hL]
  exact ht'.mid

lemma consoleread_spec (h : Midcall sb B N H L t) (hk : (k, i) ∈ H) (hL : k ∈ L) (n : ℕ) :
    Post (consoleread sb k n) t (fun _ t' => Midcall sb B N H L t') (Err good) := by
  refine (unlock_spec h hk hL).seq fun _ t₁ ht₁ => ?_
  rw [post_bind, post_get]
  cases t₁.input with
  | nil => exact ⟨ht₁.1.wf.through, by decide, fun _ => by decide⟩
  | cons line rest =>
    rw [post_bind, post_modify, post_bind]
    exact relock_spec (ht₁.1.congr rfl rfl rfl rfl rfl) hk hL ht₁.2

lemma consolewrite_spec (h : Midcall sb B N H L t) (hk : (k, i) ∈ H) (hL : k ∈ L) (n : ℕ) :
    Post (consolewrite sb k n) t (fun _ t' => Midcall sb B N H L t') (Err good) := by
  refine (unlock_spec h hk hL).seq fun _ t₁ ht₁ => ?_
  rw [post_bind]
  exact relock_spec ht₁.1 hk hL ht₁.2

end Console

/-- **Reading** a locked file that is not a device changes nothing and does not stop. -/
lemma readi_file_spec (h : Midcall sb B N H L t) (hk : (k, i) ∈ H) (hL : k ∈ L) (off n : ℕ)
    (hdev : (N i).type ≠ .dev) :
    Post (readi sb k off n) t (fun r t' => t' = t ∧ r = (N i).read off n) fun _ _ => False := by
  have hN := node_eq h hk hL
  obtain ⟨-, hsound⟩ := h.sound_of_locked hL
  have htype : (t.inode k).din.type ≠ .free := by
    rw [(h.node_of_locked hk hL).2.2]
    exact (h.node_of_locked hk hL).2.1
  have hdev' : (t.inode k).din.type ≠ .dev := by rwa [hN] at hdev
  rw [readi, post_bind, post_inode, if_neg hdev', post_ite, post_pure, post_bind]
  refine ⟨fun hout => ⟨rfl, ?_⟩, fun hin => ?_⟩
  · rw [hN, Node.read, if_pos hout]
  · refine (readLoop_spec hsound htype le_rfl ?_).imp ?_
    · split <;> omega
    · rintro bs t' ⟨rfl, rfl⟩
      refine ⟨rfl, ?_⟩
      rw [hN, Node.read, if_neg hin]
      congr 1
      refine List.map_congr_left fun j hj => (if_pos ?_).symm
      have hj' := List.mem_range.mp hj
      split at hj' <;> omega

/-- Reading a locked file or a device. -/
lemma readi_spec (h : Midcall sb B N H L t) (hk : (k, i) ∈ H) (hL : k ∈ L) (off n : ℕ) :
    Post (readi sb k off n) t
      (fun r t' => Midcall sb B N H L t' ∧ ((N i).type ≠ .dev → t' = t ∧ r = (N i).read off n))
      (Err good) := by
  by_cases hdev : (N i).type = .dev
  · have hdev' : (t.inode k).din.type = .dev := by rwa [node_eq h hk hL] at hdev
    rw [readi, post_bind, post_inode, if_pos hdev', post_ite, post_pure]
    refine ⟨fun _ => ⟨h, fun hne => absurd hdev hne⟩, fun _ => ?_⟩
    exact (consoleread_spec h hk hL n).imp fun _ t' ht' => ⟨ht', fun hne => absurd hdev hne⟩
  · refine (readi_file_spec h hk hL off n hdev).mono ?_ fun _ _ => False.elim
    rintro r t' ⟨rfl, rfl⟩
    exact ⟨h, fun _ => ⟨rfl, rfl⟩⟩

/-! ### Writing -/

section Write

variable {off : ℕ} {src : List ℕ} {t' : Fs}

/-- Writing leaves the other files as they are. -/
lemma Wrote.nodeOf_other (h : Wrote sb k t off src t') (hview : view t k = t.dinode)
    (hsound : Sound sb t.dinode t.bitmap t.data) (hinum : (t.inode k).inum = i) {j : ℕ}
    (hj : j ≠ i) : nodeOf t'.data (t.dinode j) = nodeOf t.data (t.dinode j) := by
  refine nodeOf_congr fun htype o ho => ?_
  have hfull := hsound.full j htype (o / BSIZE) ((Nat.div_mul_le_self o BSIZE).trans_lt ho)
  have hne : j ≠ (t.inode k).inum := by rwa [hinum]
  have hview' : view t k j = t.dinode j := by rw [hview]
  rw [← hview'] at htype hfull ⊢
  obtain ⟨p, hp, heq⟩ := blockAddr_eq hfull
  refine (h.byteAt_other hne htype ?_).2
  rw [blockAddr_some hp, h.slotAddr_other hne htype, ← heq]
  exact hfull

section

variable (h : Wrote sb k t off src t') (htype : (t.inode k).din.type ≠ .free)
  (hsound : Sound sb (view t k) t.bitmap t.data) (hoff : off ≤ (t.inode k).din.size)

include h htype hsound hoff

/-- The blocks below the new size are there. -/
lemma Wrote.full (haddrs : d.addrs = (t'.inode k).din.addrs)
    (hsize : d.size ≤ max (t.inode k).din.size (off + src.length)) : Full t'.data d := by
  intro bn hbn
  rw [blockAddr_addrs haddrs]
  have hdiv : bn * BSIZE / BSIZE = bn := Nat.mul_div_cancel _ (by norm_num)
  by_cases hlt : bn * BSIZE < (t.inode k).din.size
  · have hold := hsound.blockAddr_of_lt htype hlt
    rw [hdiv] at hold
    rwa [h.block htype hold]
  · have hmax : bn * BSIZE < off + src.length := by
      rcases lt_max_iff.mp (hbn.trans_le hsize) with h₁ | h₂
      · exact absurd h₁ hlt
      · exact h₂
    have hhere := (h.here (bn * BSIZE - off) (by omega)).1
    rwa [Nat.add_sub_of_le (by omega), hdiv] at hhere

/-- The contents after writing. -/
lemma Wrote.nodeOf_self
    (hd : d = { (t'.inode k).din with size := max (t.inode k).din.size (off + src.length) })
    (o : ℕ) :
    (if o < d.size then byteAt t'.data d o else 0)
      = if off ≤ o ∧ o < off + src.length then src.getD (o - off) 0
        else if o < (t.inode k).din.size then byteAt t.data (t.inode k).din o else 0 := by
  have hsize : d.size = max (t.inode k).din.size (off + src.length) := by rw [hd]
  have haddrs : d.addrs = (t'.inode k).din.addrs := by rw [hd]
  rw [hsize, byteAt_addrs haddrs]
  by_cases hrange : off ≤ o ∧ o < off + src.length
  · have hhere := (h.here (o - off) (by omega)).2
    rw [Nat.add_sub_of_le hrange.1] at hhere
    rw [if_pos hrange, if_pos (lt_max_of_lt_right hrange.2), hhere]
  · rw [if_neg hrange]
    by_cases hlt : o < (t.inode k).din.size
    · rw [if_pos hlt, if_pos (lt_max_of_lt_left hlt),
        h.keep o (hsound.blockAddr_of_lt htype hlt) hrange]
    · have hout : ¬o < max (t.inode k).din.size (off + src.length) := by
        rw [lt_max_iff]
        omega
      rw [if_neg hlt, if_neg hout]

end

/-- The state after `writei`, once the size has been written. -/
lemma Midcall.wrote (h : Midcall sb B N H L t) (hk : (k, i) ∈ H) (hL : k ∈ L)
    (hw : Wrote sb k t off src t') (hoff : off ≤ (t.inode k).din.size) {x : Node}
    (hx : (N i).write src off = some x)
    (hd : d = { (t'.inode k).din with size := max (t.inode k).din.size (off + src.length) })
    (hD : u.dinode = update t.dinode i d)
    (hI : u.inode = update t.inode k { t.inode k with din := d }) (hbitmap : u.bitmap = t'.bitmap)
    (hdata : u.data = t'.data) (hthrough : u.through = t'.through) :
    Midcall sb B (update N i x) H L u ∧ (∀ j ≠ i, Files.node u j = Files.node t j) ∧
      Added sb k (PlacesFor off src.length) t u := by
  have hinum : (t.inode k).inum = i := h.held _ hk
  obtain ⟨hnode, htype, hdin⟩ := h.node_of_locked hk hL
  obtain ⟨hview, hsound⟩ := h.sound_of_locked hL
  have htype' : (t.inode k).din.type ≠ .free := by rwa [hdin]
  have hdtype : d.type = (t.inode k).din.type := by rw [hd, ← hw.type_self]
  have hview' : view t' k = update t.dinode i (t'.inode k).din := by
    rw [view, hw.dinode, hw.inum, hinum]
  have hsound' : Sound sb u.dinode u.bitmap u.data := by
    rw [hD, hbitmap, hdata]
    refine ⟨hw.sound.owned.congr (fun y => ?_) fun _ _ => rfl, fun j hj => ?_⟩
    · obtain ⟨j, p⟩ := y
      rw [hview']
      unfold addrOf
      by_cases hj : j = i
      · subst hj
        simp only [update_self, hdtype, hw.type_self, htype', if_false]
        exact slotAddr_addrs (by rw [hd]) _ _
      · simp only [update_of_ne hj]
    · by_cases hji : j = i
      · subst hji
        rw [update_self]
        exact hw.full htype' hsound hoff (by rw [hd]) (by rw [hd])
      · rw [update_of_ne hji] at hj ⊢
        have hfull := hw.sound.full j
        rw [hview', update_of_ne hji] at hfull
        exact hfull hj
  have hself : Files.node u i = x := by
    rw [Files.node, hD, hdata, update_self, nodeOf_of_type (by rwa [hdtype])]
    obtain ⟨a, ha⟩ := hw.self
    have hN := node_eq h hk hL
    rw [Node.write, hN] at hx
    split at hx
    · cases hx
    · cases hx
      refine Node.ext hdtype ?_ ?_ ?_ (by rw [hd]) (funext fun o => ?_)
      · rw [hd, ha]
      · rw [hd, ha]
      · rw [hd, ha]
      · exact hw.nodeOf_self htype' hsound hoff hd o
  have hother : ∀ j ≠ i, Files.node u j = Files.node t j := by
    intro j hj
    rw [Files.node, Files.node, hD, hdata, update_of_ne hj]
    exact hw.nodeOf_other hview h.wf.sound hinum hj
  have hview'' : view u k = update t.dinode i d := by
    simp only [view, hD, hI, update_self, hinum, update_idem]
  rw [← hself]
  refine ⟨h.change hk hL (by rwa [hdtype]) hD hI hsound'
    (by rw [hthrough, hw.through, h.wf.through]) hother,
    hother, hw.added.congr hthrough ?_ (fun j => ?_) (fun j => ?_) hdata ?_⟩
  · rw [hI, update_self, hw.inum]
  · rw [hview', hview'']
    by_cases hj : j = i
    · rw [hj, update_self, update_self, hdtype, hw.type_self]
    · rw [update_of_ne hj, update_of_ne hj]
  · rw [hview', hview'']
    by_cases hj : j = i
    · rw [hj, update_self, update_self, hd]
    · rw [update_of_ne hj, update_of_ne hj]
  · rwa [hview'', ← hD]

/-- What `writei` does. -/
inductive Written (sb : Superblock) (B : Ip → Inode) (N : ℕ → Node) (H : List (Ip × ℕ)) (L : Set Ip)
    (i : ℕ) (src : List ℕ) (off : ℕ) : Option ℕ → Fs → Prop
  | dev {r : Option ℕ} {u : Fs} (htype : (N i).type = .dev) (h : Midcall sb B N H L u) :
      Written sb B N H L i src off r u
  | range {u : Fs} (hwrite : (N i).write src off = none) (h : Midcall sb B N H L u) :
      Written sb B N H L i src off none u
  | done {u : Fs} {x : Node} (hwrite : (N i).write src off = some x)
      (h : Midcall sb B (update N i x) H L u) :
      Written sb B N H L i src off (some src.length) u

/-- What `writei` does to a file that is not a device: nothing if it is out of range; otherwise the
bytes are in the file and the other files are as they were. -/
inductive WrittenFile (sb : Superblock) (B : Ip → Inode) (N : ℕ → Node)
    (H : List (Ip × ℕ)) (L : Set Ip)
    (k : Ip) (i : ℕ) (src : List ℕ) (off : ℕ) (t : Fs) : Option ℕ → Fs → Prop
  | range (hwrite : (N i).write src off = none) : WrittenFile sb B N H L k i src off t none t
  | done {u : Fs} {x : Node} (hwrite : (N i).write src off = some x)
      (h : Midcall sb B (update N i x) H L u ∧ (∀ j ≠ i, node u j = node t j) ∧
        Added sb k (PlacesFor off src.length) t u) :
      WrittenFile sb B N H L k i src off t (some src.length) u

/-- **Writing** to a locked file stops only for want of a block. -/
lemma writei_file_spec (h : Midcall sb B N H L t) (hk : (k, i) ∈ H) (hL : k ∈ L) (src : List ℕ)
    (off : ℕ) (hdev : (N i).type ≠ .dev) :
    Post (writei sb k src off) t (WrittenFile sb B N H L k i src off t)
      (NoBlocks sb k (PlacesFor off src.length) t) := by
  have hN := node_eq h hk hL
  have hinum : (t.inode k).inum = i := h.held _ hk
  obtain ⟨hview, hsound⟩ := h.sound_of_locked hL
  obtain ⟨-, htype, hdin⟩ := h.node_of_locked hk hL
  have hdev' : (t.inode k).din.type ≠ .dev := by rwa [hN] at hdev
  rw [writei, post_bind, post_inode, if_neg hdev']
  simp only [post_bind, post_inode, post_ite, post_pure]
  refine ⟨fun hout => .range ?_, fun hin => ⟨fun hmax => .range ?_, fun hmax => ?_⟩⟩
  · rw [hN, Node.write, if_pos (by tauto)]
  · rw [hN, Node.write, if_pos (by tauto)]
  · have hwrite : ∃ x, (N i).write src off = some x := by
      rw [hN, Node.write, if_neg (by tauto)]
      exact ⟨_, rfl⟩
    obtain ⟨x, hx⟩ := hwrite
    have hoff : off ≤ (t.inode k).din.size := by omega
    refine (writeLoop_spec hsound (by rwa [hdin]) le_rfl (by omega)).imp fun _ t₁ hw => ?_
    obtain ⟨a, ha⟩ := hw.self
    have hsize₁ : (t₁.inode k).din.size = (t.inode k).din.size := by rw [ha]
    rw [hsize₁]
    refine ⟨fun hgrow => ?_, fun hstay => ?_⟩
    · -- The file has grown, and the dinode is written.
      simp only [iupdate, post_setDin, post_bind, post_inode, post_modify, post_logWrite]
      refine .done hx (h.wrote hk hL hw hoff hx
        (d := { (t₁.inode k).din with size := off + src.length }) ?_ ?_
        (funext fun j => ?_) rfl rfl rfl)
      · rw [max_eq_right hgrow.2.le]
      · simp only [Fs.log, Fs.setDinode, Fs.setInode_inode_self, Fs.setInode_dinode, hw.dinode,
          hw.inum, hinum]
      · by_cases hj : j = k
        · subst hj
          simp only [Fs.log, Fs.setDinode, Fs.setInode_inode_self, update_self, ha]
        · simp only [Fs.log, Fs.setDinode, Fs.setInode, update_of_ne hj, hw.other j hj]
    · -- The blocks were all there, so nothing but their contents has changed.
      have hall : ∀ j < src.length, blockAddr t.data (t.inode k).din ((off + j) / BSIZE) ≠ 0 :=
        fun j hj => hsound.blockAddr_of_lt (by rwa [hdin]) (by omega)
      have hsame := hw.stay hall
      have hinode : t₁.inode = t.inode := funext fun j => by
        by_cases hj : j = k
        · rw [hj, hsame]
        · exact hw.other j hj
      refine .done hx (h.wrote hk hL hw hoff hx (d := (t.inode k).din) ?_ ?_ ?_ rfl rfl rfl)
      · rw [hsame, max_eq_left (by omega)]
      · rw [hw.dinode, hdin, update_eq_self]
      · rw [hinode, update_eq_self]

/-- Writing to a locked file or a device. -/
lemma writei_spec (h : Midcall sb B N H L t) (hk : (k, i) ∈ H) (hL : k ∈ L)
    (src : List ℕ) (off : ℕ) :
    Post (writei sb k src off) t (fun r t' => Written sb B N H L i src off r t') (Err good) := by
  by_cases hdev : (N i).type = .dev
  · have hdev' : (t.inode k).din.type = .dev := by rwa [node_eq h hk hL] at hdev
    rw [writei, post_bind, post_inode, if_pos hdev', post_ite, post_pure]
    refine ⟨fun _ => .dev hdev h, fun _ => ?_⟩
    exact (consolewrite_spec h hk hL _).imp fun _ t' ht' => .dev hdev ht'
  · refine (writei_file_spec h hk hL src off hdev).mono ?_ ?_
    · intro r u hr
      cases hr with
      | range hout => exact .range hout h
      | done hx hu => exact .done hx hu.1
    · rintro e u ⟨rfl, hadded, -⟩
      exact ⟨hadded.through.trans h.wf.through, by decide, fun _ => by decide⟩

end Write

/-! ### Other fields -/

/-- Fields other than the size and the addresses are changed and written. -/
lemma iupdate_spec (h : Midcall sb B N H L t) (hk : (k, i) ∈ H) (hL : k ∈ L)
    (htype : d.type = (t.inode k).din.type) (hsize : d.size = (t.inode k).din.size)
    (haddrs : d.addrs = (t.inode k).din.addrs) :
    Post (iupdate sb k) (t.setInode k { t.inode k with din := d })
      (fun _ u => Midcall sb B
        (update N i { N i with major := d.major, minor := d.minor, nlink := d.nlink }) H L u ∧
          ∀ j ≠ i, node u j = node t j) E := by
  obtain rfl : (t.inode k).inum = i := h.held _ hk
  obtain ⟨-, hfree, hdin⟩ := h.node_of_locked hk hL
  have hd : d.type ≠ .free := by rwa [htype, hdin]
  simp only [iupdate, post_bind, post_inode, post_modify, post_logWrite, Fs.setInode_inode_self]
  have hself : nodeOf t.data d
      = { N (t.inode k).inum with major := d.major, minor := d.minor, nlink := d.nlink } := by
    rw [nodeOf_of_type hd, node_eq h hk hL]
    simp only [htype, hsize, byteAt_addrs haddrs]
  rw [← hself]
  have hnode :
      ∀ j, node (((t.setInode k { t.inode k with din := d }).setDinode (t.inode k).inum d).log
      (sb.iblock (t.inode k).inum)) j
        = nodeOf t.data (update t.dinode (t.inode k).inum d j) := fun j => rfl
  have hi := hnode (t.inode k).inum
  rw [update_self] at hi
  rw [← hi]
  have hsound : Sound sb (update t.dinode (t.inode k).inum d) t.bitmap t.data := by
    refine h.wf.sound.congr (fun j => ?_) (fun j => ?_) (fun j p _ => ?_) fun _ _ => rfl
    · by_cases hj : j = (t.inode k).inum
      · rw [hj, update_self, htype, hdin]
      · rw [update_of_ne hj]
    · by_cases hj : j = (t.inode k).inum
      · rw [hj, update_self, hsize, hdin]
      · rw [update_of_ne hj]
    · by_cases hj : j = (t.inode k).inum
      · rw [hj, update_self]
        exact slotAddr_addrs (by rw [haddrs, hdin]) _ _
      · rw [update_of_ne hj]
  have hother : ∀ j ≠ (t.inode k).inum,
      node (((t.setInode k { t.inode k with din := d }).setDinode (t.inode k).inum d).log
        (sb.iblock (t.inode k).inum)) j = node t j := by
    intro j hj
    rw [hnode, update_of_ne hj]
    rfl
  refine ⟨h.change hk hL hd ?_ ?_ ?_ ?_ hother, hother⟩
  · rfl
  · rfl
  · exact hsound
  · exact h.wf.through

/-- The files with another link count. -/
def addNlink (N : ℕ → Node) (i : ℕ) (x : ℤ) : ℕ → Node :=
  update N i { N i with nlink := short ((N i).nlink + x) }

lemma addNlink_of_ne {j : ℕ} (h : j ≠ i) (x : ℤ) : addNlink N i x j = N j := update_of_ne h ..

lemma addNlink_self (N : ℕ → Node) (i : ℕ) (x : ℤ) :
    addNlink N i x i = { N i with nlink := short ((N i).nlink + x) } := update_self ..

lemma addLinks_spec (h : Midcall sb B N H L t) (hk : (k, i) ∈ H) (hL : k ∈ L) (x : ℤ) :
    Post (addLinks sb k x) t
      (fun _ u => Midcall sb B (addNlink N i x) H L u ∧ ∀ j ≠ i, node u j = node t j) E := by
  simp only [addLinks, post_bind, post_inode, post_setDin]
  refine (iupdate_spec h hk hL ?_ ?_ ?_).imp fun _ u hu => ?_
  · rfl
  · rfl
  · rfl
  · rw [addNlink, node_eq h hk hL]
    rw [node_eq h hk hL] at hu
    exact hu

/-! ### New files -/

lemma nodeOf_fresh (data : ℕ → Bytes) (ty : InodeType) : nodeOf data (.fresh ty) = .fresh ty := by
  unfold nodeOf
  split
  · next hty =>
    rw [Dinode.fresh_type] at hty
    rw [hty]
    rfl
  · rfl

/-- A dinode that is not in use becomes a new one. -/
lemma Midcall.alloc (h : Midcall sb B N H L t) (hfree : (t.dinode i).type = .free) (ty : InodeType)
    (b : ℕ) : Midcall sb B (update N i (.fresh ty)) H L ((t.setDinode i (.fresh ty)).log b) := by
  -- A valid entry of the cache is for another inode.
  have hne : ∀ k, 0 < (t.inode k).ref → (t.inode k).valid = true → (t.inode k).inum ≠ i := by
    rintro k hpos hv rfl
    obtain ⟨hdin, htype⟩ := h.wf.sync k hpos hv
    exact htype (hdin ▸ hfree)
  have hsound := h.wf.sound.setFresh hfree (d := .fresh ty) (fun _ => rfl) rfl
  refine ⟨⟨hsound, h.wf.uniq, fun k hpos hv => ?_, h.wf.held, h.wf.through⟩, h.ref, h.inum, h.held,
    h.valid, h.lock, fun j => ?_⟩
  · change (t.inode k).din = update t.dinode i (.fresh ty) (t.inode k).inum ∧ _
    rw [update_of_ne (hne k hpos hv)]
    exact h.wf.sync k hpos hv
  · change nodeOf t.data (update t.dinode i (.fresh ty) j) = _ ∨
      _ ∧ nodeOf t.data (update t.dinode i (.fresh ty) j) = _
    by_cases hj : j = i
    · rw [hj, update_self, update_self]
      exact .inl (nodeOf_fresh ..)
    · unfold Loose
      rw [update_of_ne hj, update_of_ne hj]
      exact h.node j

/-- **`ialloc`** takes a dinode that is not in use. -/
lemma ialloc_spec (h : Midcall sb B N H L t) (ty : InodeType) :
    Post (ialloc sb ty) t
      (fun k t' => ∃ i, (node t i).type = .free ∧ 0 < i ∧ i < sb.ninodes ∧ node t' i = .fresh ty ∧
        Midcall sb B (update N i (.fresh ty)) ((k, i) :: H) L t') (Err good) := by
  simp only [ialloc, post_bind, post_get]
  cases hfind : (List.range' 1 (sb.ninodes - 1)).find? fun i => (t.dinode i).type = .free with
  | none => exact ⟨h.wf.through, by decide, fun _ => by decide⟩
  | some i =>
    have hfree : (t.dinode i).type = .free := by simpa using List.find?_some hfind
    have hrange := List.mem_range'_1.mp (List.mem_of_find?_eq_some hfind)
    simp only [post_bind, post_set, post_logWrite]
    refine (iget_spec (h.alloc hfree ty _)).imp fun k t' ht' => ?_
    refine ⟨i, by rwa [node_type], by omega, by omega, ?_, ht'.1⟩
    rw [ht'.2]
    change nodeOf t.data (update t.dinode i (.fresh ty) i) = _
    rw [update_self, nodeOf_fresh]

end Xv6.Files
