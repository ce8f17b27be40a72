import Mathlib.Tactic

/-!
System call arguments (`syscall.c`, and the fetching of arguments in `sys_exec` and `sys_waitx`).

* `User`: the process that makes the call, `UserM`: code that reads its memory, with the addresses
  that it has read.
* `fetchint`, `fetchstr`, `argint`, `argptr`, `argstr`, `sysExecArgs`, `sysWaitxArgs`.
* `Inside`: code that reads only inside the process.
* `arguments_inside`: which arguments are accepted, and that nothing else is read.

Addresses and words are natural numbers below `2 ^ 32`, with the remainder taken where the C code
can wrap around.
-/

namespace Xv6.Arguments

abbrev KERNBASE : ℕ := 0x80000000
abbrev MAXARG : ℕ := 32

/-- The process that makes a call: its size, its saved stack pointer and its memory. -/
structure User where
  sz : ℕ
  esp : ℕ
  mem : ℕ → UInt8

/-- Code that reads user memory.  The state is the addresses of the bytes that were read. -/
abbrev UserM : Type → Type := StateM (List ℕ)

section Code

variable (u : User)

/-- Read a byte. -/
def load (a : ℕ) : UserM ℕ := do
  modify (· ++ [a])
  return (u.mem a).toNat

/-- Read four bytes. -/
def loadInt (a : ℕ) : UserM ℕ := do
  let b₀ ← load u a
  let b₁ ← load u ((a + 1) % 2 ^ 32)
  let b₂ ← load u ((a + 2) % 2 ^ 32)
  let b₃ ← load u ((a + 3) % 2 ^ 32)
  return b₀ + 2 ^ 8 * b₁ + 2 ^ 16 * b₂ + 2 ^ 24 * b₃

/-- Fetch the int at addr from the current process. -/
def fetchint (addr : ℕ) : UserM (Option ℕ) := do
  if u.sz ≤ addr ∨ u.sz < (addr + 4) % 2 ^ 32 then return none
  else return some (← loadInt u addr)

/-- The loop of `fetchstr`: `fuel` bytes are left before `ep`. -/
def fetchstrLoop (pp : ℕ) : ℕ → ℕ → UserM (Option (ℕ × ℕ))
  | 0, _ => return none
  | fuel + 1, s => do
    if (← load u s) = 0 then return some (pp, s - pp)
    else fetchstrLoop pp fuel (s + 1)

/-- Fetch the nul-terminated string at addr from the current process.
Returns the address and the length of the string, not including nul. -/
def fetchstr (addr : ℕ) : UserM (Option (ℕ × ℕ)) :=
  if u.sz ≤ addr then return none
  else fetchstrLoop u addr (u.sz - addr) addr

/-- Fetch the nth 32-bit system call argument. -/
def argint (n : ℕ) : UserM (Option ℕ) := fetchint u ((u.esp + 4 + 4 * n) % 2 ^ 32)

/-- Fetch the nth word-sized system call argument as a pointer to a block of memory of size
bytes. -/
def argptr (n : ℕ) (size : ℤ) : UserM (Option ℕ) := do
  match ← argint u n with
  | none => return none
  | some i =>
    if size < 0 ∨ u.sz ≤ i ∨ u.sz < (i + (size % 2 ^ 32).toNat) % 2 ^ 32 then return none
    else return some i

/-- Fetch the nth word-sized system call argument as a string pointer. -/
def argstr (n : ℕ) : UserM (Option (ℕ × ℕ)) := do
  match ← argint u n with
  | none => return none
  | some addr => fetchstr u addr

/-- The loop of `sys_exec` over the argument vector at `uargv`, with room for `fuel` more entries
after the `i` entries `argv`. -/
def argvLoop (uargv : ℕ) : ℕ → ℕ → List ℕ → UserM (Option (List ℕ))
  | 0, _, _ => return none
  | fuel + 1, i, argv => do
    match ← fetchint u ((uargv + 4 * i) % 2 ^ 32) with
    | none => return none
    | some uarg =>
      if uarg = 0 then return some argv
      else
        match ← fetchstr u uarg with
        | none => return none
        | some (p, _) => argvLoop uargv fuel (i + 1) (argv ++ [p])

/-- The path and the argument vector that `sys_exec` hands to `exec`. -/
def sysExecArgs : UserM (Option (ℕ × List ℕ)) := do
  match ← argstr u 0 with
  | none => return none
  | some (path, _) =>
    match ← argint u 1 with
    | none => return none
    | some uargv =>
      match ← argvLoop u uargv MAXARG 0 [] with
      | none => return none
      | some argv => return some (path, argv)

/-- The pointers that `sys_waitx` hands to `waitx`. -/
def sysWaitxArgs : UserM (Option (ℕ × ℕ)) := do
  match ← argptr u 0 4 with
  | none => return none
  | some pw =>
    match ← argptr u 1 4 with
    | none => return none
    | some pr => return some (pw, pr)

/-! ### What the arguments are -/

/-- The word at an address. -/
def word (a : ℕ) : ℕ :=
  (u.mem a).toNat + 2 ^ 8 * (u.mem (a + 1)).toNat + 2 ^ 16 * (u.mem (a + 2)).toNat
    + 2 ^ 24 * (u.mem (a + 3)).toNat

/-- The address of the nth argument. -/
def argAddr (n : ℕ) : ℕ := (u.esp + 4 + 4 * n) % 2 ^ 32

/-- A string of the length `n` lies at the address, and ends before the end of the process. -/
structure IsString (a n : ℕ) : Prop where
  lt : a + n < u.sz
  nul : u.mem (a + n) = 0
  chars : ∀ j < n, u.mem (a + j) ≠ 0

/-- **Code that reads only inside the process.** -/
def Inside {α : Type} (m : UserM α) : Prop :=
  ∀ rs, (∀ a ∈ rs, a < u.sz) → ∀ a ∈ (m rs).2, a < u.sz

end Code

variable {u : User} {α β : Type}

lemma bind_apply (m : UserM α) (f : α → UserM β) (rs : List ℕ) :
    (m >>= f) rs = f (m rs).1 (m rs).2 := rfl

lemma Inside.pure (a : α) : Inside u (pure a) := fun _ h => h

lemma Inside.bind {m : UserM α} {f : α → UserM β} (h : Inside u m)
    (hf : ∀ rs, Inside u (f (m rs).1)) : Inside u (m >>= f) :=
  fun rs hrs => hf rs _ (h rs hrs)

lemma Inside.load {a : ℕ} (ha : a < u.sz) : Inside u (load u a) := by
  intro rs hrs b hb
  rcases List.mem_append.mp hb with hb | hb
  · exact hrs b hb
  · rwa [List.mem_singleton.mp hb]

/-! ### Words -/

variable {addr : ℕ}

/-- The checks of `fetchint`. -/
lemma fetchint_check (hsz : u.sz < KERNBASE) :
    (u.sz ≤ addr ∨ u.sz < (addr + 4) % 2 ^ 32) ↔ ¬addr + 4 ≤ u.sz := by
  simp only [KERNBASE] at hsz
  omega

lemma loadInt_fst (hsz : u.sz < KERNBASE) (haddr : addr + 4 ≤ u.sz) (rs : List ℕ) :
    (loadInt u addr rs).1 = word u addr := by
  simp only [KERNBASE] at hsz
  have h : ∀ k < 4, (addr + k) % 2 ^ 32 = addr + k := fun k hk => Nat.mod_eq_of_lt (by omega)
  change (u.mem addr).toNat + 2 ^ 8 * (u.mem ((addr + 1) % 2 ^ 32)).toNat
    + 2 ^ 16 * (u.mem ((addr + 2) % 2 ^ 32)).toNat
    + 2 ^ 24 * (u.mem ((addr + 3) % 2 ^ 32)).toNat = _
  rw [h 1 (by decide), h 2 (by decide), h 3 (by decide), word]

lemma loadInt_inside (hsz : u.sz < KERNBASE) (haddr : addr + 4 ≤ u.sz) :
    Inside u (loadInt u addr) := by
  simp only [KERNBASE] at hsz
  have h : ∀ k < 4, (addr + k) % 2 ^ 32 < u.sz := fun k hk => by
    rw [Nat.mod_eq_of_lt (by omega)]
    omega
  exact (Inside.load (by omega)).bind fun _ => (Inside.load (h 1 (by decide))).bind fun _ =>
    (Inside.load (h 2 (by decide))).bind fun _ =>
      (Inside.load (h 3 (by decide))).bind fun _ => .pure _

/-- **`fetchint`** succeeds exactly if the four bytes lie in the process. -/
lemma fetchint_fst (hsz : u.sz < KERNBASE) (addr : ℕ) (rs : List ℕ) :
    (fetchint u addr rs).1 = if addr + 4 ≤ u.sz then some (word u addr) else none := by
  unfold fetchint
  by_cases h : addr + 4 ≤ u.sz
  · rw [if_neg (by rw [fetchint_check hsz]; exact not_not.mpr h), if_pos h, ← loadInt_fst hsz h rs]
    rfl
  · rw [if_pos ((fetchint_check hsz).mpr h), if_neg h]
    rfl

lemma fetchint_inside (hsz : u.sz < KERNBASE) (addr : ℕ) : Inside u (fetchint u addr) := by
  unfold fetchint
  by_cases h : addr + 4 ≤ u.sz
  · rw [if_neg (by rw [fetchint_check hsz]; exact not_not.mpr h)]
    exact (loadInt_inside hsz h).bind fun _ => .pure _
  · rw [if_pos ((fetchint_check hsz).mpr h)]
    exact .pure _

variable {rs : List ℕ}

lemma fetchint_some (hsz : u.sz < KERNBASE) {w : ℕ} :
    (fetchint u addr rs).1 = some w ↔ addr + 4 ≤ u.sz ∧ w = word u addr := by
  rw [fetchint_fst hsz]
  split
  · next h => simp [h, eq_comm]
  · next h => simp [h]

/-! ### Strings -/

variable {fuel p n : ℕ}

lemma fetchstrLoop_some {pp s : ℕ} (hpp : pp ≤ s) (hfuel : s + fuel = u.sz)
    (hs : ∀ j, pp + j < s → u.mem (pp + j) ≠ 0) :
    (fetchstrLoop u pp fuel s rs).1 = some (p, n) ↔ p = pp ∧ s ≤ pp + n ∧ IsString u pp n := by
  induction fuel generalizing s rs with
  | zero =>
    refine ⟨fun h => (by cases h), fun ⟨_, hle, hstr⟩ => ?_⟩
    have := hstr.lt
    omega
  | succ fuel ih =>
    change (ite ((u.mem s).toNat = 0) (Pure.pure (some (pp, s - pp)) : UserM _)
      (fetchstrLoop u pp fuel (s + 1)) (rs ++ [s])).1 = _ ↔ _
    obtain ⟨k, rfl⟩ := Nat.exists_eq_add_of_le hpp
    by_cases hzero : (u.mem (pp + k)).toNat = 0
    · rw [if_pos hzero, Nat.add_sub_cancel_left]
      have hnul : u.mem (pp + k) = 0 := UInt8.toNat_inj.mp hzero
      constructor
      · rintro h
        cases h
        exact ⟨rfl, le_rfl, by omega, hnul, fun j hj => hs j (by omega)⟩
      · rintro ⟨rfl, hle, hstr⟩
        -- The string ends at the first nul.
        obtain rfl : n = k := by
          by_contra hne
          exact hstr.chars k (by omega) hnul
        rfl
    · rw [if_neg hzero]
      have hne : u.mem (pp + k) ≠ 0 := fun h => hzero (by rw [h]; rfl)
      rw [ih (by omega) (by omega) fun j hj => ?_]
      · refine and_congr_right fun _ => ⟨fun h => ⟨by omega, h.2⟩, fun h => ⟨?_, h.2⟩⟩
        by_contra hlt
        obtain rfl : n = k := by omega
        exact hne h.2.nul
      · rcases Nat.lt_or_ge (pp + j) (pp + k) with hlt | hge
        · exact hs j hlt
        · rwa [show j = k by omega]

/-- **`fetchstr`** succeeds exactly if a string lies at the address. -/
lemma fetchstr_some :
    (fetchstr u addr rs).1 = some (p, n) ↔ p = addr ∧ IsString u addr n := by
  unfold fetchstr
  by_cases h : u.sz ≤ addr
  · rw [if_pos h]
    refine ⟨fun hr => (by cases hr), fun ⟨_, hstr⟩ => ?_⟩
    have := hstr.lt
    omega
  · rw [if_neg h, fetchstrLoop_some le_rfl (by omega) fun j hj => by omega]
    exact and_congr_right fun _ => ⟨And.right, fun hstr => ⟨Nat.le_add_right .., hstr⟩⟩

lemma fetchstrLoop_inside {pp s : ℕ} (hfuel : s + fuel = u.sz) :
    Inside u (fetchstrLoop u pp fuel s) := by
  induction fuel generalizing s with
  | zero => exact .pure _
  | succ fuel ih =>
    refine (Inside.load (by omega)).bind fun rs => ?_
    split
    · exact .pure _
    · exact ih (by omega)

lemma fetchstr_inside (addr : ℕ) : Inside u (fetchstr u addr) := by
  unfold fetchstr
  split
  · exact .pure _
  · exact fetchstrLoop_inside (by omega)

/-! ### Arguments -/

section

variable (hsz : u.sz < KERNBASE)

include hsz

lemma argint_some {w : ℕ} (rs : List ℕ) :
    (argint u n rs).1 = some w ↔ argAddr u n + 4 ≤ u.sz ∧ w = word u (argAddr u n) :=
  fetchint_some hsz

lemma argint_inside (n : ℕ) : Inside u (argint u n) :=
  fetchint_inside hsz _

/-- The checks of `argptr`: with both numbers below `2 ^ 31` the sum does not wrap around. -/
lemma argptr_check {size : ℤ} (hsize : size < 2 ^ 31) {i : ℕ} :
    (size < 0 ∨ u.sz ≤ i ∨ u.sz < (i + (size % 2 ^ 32).toNat) % 2 ^ 32) ↔
      ¬(0 ≤ size ∧ i < u.sz ∧ (i : ℤ) + size ≤ u.sz) := by
  simp only [KERNBASE] at hsz
  by_cases hneg : size < 0
  · omega
  · rw [Int.emod_eq_of_lt (by omega) (by omega)]
    omega

lemma argptr_some {size : ℤ} (hsize : size < 2 ^ 31) :
    (argptr u n size rs).1 = some p ↔
      (argAddr u n + 4 ≤ u.sz ∧ p = word u (argAddr u n)) ∧ 0 ≤ size ∧ p < u.sz ∧
        (p : ℤ) + size ≤ u.sz := by
  rw [← argint_some hsz rs, argptr, bind_apply]
  cases (argint u n rs).1 with
  | none => exact ⟨fun h => (by cases h), fun h => (by cases h.1)⟩
  | some i =>
    simp only
    by_cases hok : 0 ≤ size ∧ i < u.sz ∧ (i : ℤ) + size ≤ u.sz
    · rw [if_neg (by rw [argptr_check hsz hsize]; exact not_not.mpr hok)]
      constructor
      · rintro h
        cases h
        exact ⟨rfl, hok⟩
      · rintro ⟨h, -⟩
        cases h
        rfl
    · rw [if_pos ((argptr_check hsz hsize).mpr hok)]
      refine ⟨fun h => (by cases h), fun h => ?_⟩
      cases h.1
      exact absurd h.2 hok

lemma argptr_inside (n : ℕ) (size : ℤ) : Inside u (argptr u n size) := by
  refine (argint_inside hsz n).bind fun rs => ?_
  cases (argint u n rs).1 with
  | none => exact .pure _
  | some i =>
    dsimp only
    split
    · exact .pure _
    · exact .pure _

lemma argstr_some {len : ℕ} :
    (argstr u n rs).1 = some (p, len) ↔
      (argAddr u n + 4 ≤ u.sz ∧ p = word u (argAddr u n)) ∧ IsString u p len := by
  rw [← argint_some hsz rs, argstr, bind_apply]
  cases (argint u n rs).1 with
  | none => exact ⟨fun h => (by cases h), fun h => (by cases h.1)⟩
  | some addr =>
    dsimp only
    rw [fetchstr_some]
    constructor
    · rintro ⟨rfl, hstr⟩
      exact ⟨rfl, hstr⟩
    · rintro ⟨h, hstr⟩
      cases h
      exact ⟨rfl, hstr⟩

lemma argstr_inside (n : ℕ) : Inside u (argstr u n) := by
  refine (argint_inside hsz n).bind fun rs => ?_
  cases (argint u n rs).1 with
  | none => exact .pure _
  | some addr => exact fetchstr_inside addr

end

/-! ### Argument vectors -/

/-- The `i`th entry of the vector at `uargv` lies in the process, and is `p`. -/
structure Entry (u : User) (uargv i p : ℕ) : Prop where
  le : (uargv + 4 * i) % 2 ^ 32 + 4 ≤ u.sz
  word : Arguments.word u ((uargv + 4 * i) % 2 ^ 32) = p

/-- **An argument vector**: its entries are addresses of strings, and a null pointer follows. -/
structure IsVector (u : User) (uargv : ℕ) (argv : List ℕ) : Prop where
  entry : ∀ i p, argv[i]? = some p → Entry u uargv i p ∧ p ≠ 0 ∧ ∃ n, IsString u p n
  last : Entry u uargv argv.length 0
  length : argv.length < MAXARG

section

variable (hsz : u.sz < KERNBASE)

include hsz

lemma argvLoop_some {uargv i : ℕ} {done argv : List ℕ} (hfuel : i + fuel = MAXARG)
    (hi : done.length = i)
    (hdone : ∀ j p, done[j]? = some p → Entry u uargv j p ∧ p ≠ 0 ∧ ∃ n, IsString u p n)
    (h : (argvLoop u uargv fuel i done rs).1 = some argv) : IsVector u uargv argv := by
  induction fuel generalizing i done rs with
  | zero => cases h
  | succ fuel ih =>
    rw [argvLoop, bind_apply] at h
    cases hint : (fetchint u ((uargv + 4 * i) % 2 ^ 32) rs).1 with
    | none =>
      rw [hint] at h
      cases h
    | some uarg =>
      obtain ⟨hle, hword⟩ := (fetchint_some hsz).mp hint
      have hentry : Entry u uargv i uarg := ⟨hle, hword.symm⟩
      rw [hint] at h
      by_cases hzero : uarg = 0
      · simp only [hzero, if_true] at h
        cases h
        exact ⟨hdone, by rwa [hi, ← hzero], by omega⟩
      · simp only [hzero, if_false] at h
        rw [bind_apply] at h
        cases hstr : (fetchstr u uarg (fetchint u ((uargv + 4 * i) % 2 ^ 32) rs).2).1 with
        | none =>
          rw [hstr] at h
          cases h
        | some x =>
          obtain ⟨rfl, hstr'⟩ := fetchstr_some.mp (hstr : _ = some (x.1, x.2))
          rw [hstr] at h
          refine ih (i := i + 1) (by omega) (by simp [hi]) (fun j p hp => ?_) h
          rcases Nat.lt_trichotomy j done.length with hlt | rfl | hgt
          · rw [List.getElem?_append_left hlt] at hp
            exact hdone j p hp
          · simp only [List.getElem?_append_right le_rfl, Nat.sub_self, List.getElem?_cons_zero,
              Option.some.injEq] at hp
            subst hp
            exact ⟨hi ▸ hentry, hzero, _, hstr'⟩
          · rw [List.getElem?_eq_none (by simp; omega)] at hp
            cases hp

lemma argvLoop_inside (uargv fuel i : ℕ) (argv : List ℕ) :
    Inside u (argvLoop u uargv fuel i argv) := by
  induction fuel generalizing i argv with
  | zero => exact .pure _
  | succ fuel ih =>
    refine (fetchint_inside hsz _).bind fun rs => ?_
    cases (fetchint u ((uargv + 4 * i) % 2 ^ 32) rs).1 with
    | none => exact .pure _
    | some uarg =>
      dsimp only
      split
      · exact .pure _
      refine (fetchstr_inside uarg).bind fun rs => ?_
      cases (fetchstr u uarg rs).1 with
      | none => exact .pure _
      | some x => exact ih (i + 1) (argv ++ [x.1])

lemma sysExecArgs_inside : Inside u (sysExecArgs u) := by
  refine (argstr_inside hsz 0).bind fun rs => ?_
  cases (argstr u 0 rs).1 with
  | none => exact .pure _
  | some path =>
    refine (argint_inside hsz 1).bind fun rs => ?_
    cases (argint u 1 rs).1 with
    | none => exact .pure _
    | some uargv =>
      refine (argvLoop_inside hsz uargv MAXARG 0 []).bind fun rs => ?_
      cases (argvLoop u uargv MAXARG 0 [] rs).1 with
      | none => exact .pure _
      | some argv => exact .pure _

/-- **`sys_exec`** hands to `exec` a string and a vector of strings. -/
lemma sysExecArgs_some {path : ℕ} {argv : List ℕ} (h : (sysExecArgs u rs).1 = some (path, argv)) :
    (∃ n, IsString u path n) ∧ ∃ uargv, IsVector u uargv argv := by
  rw [sysExecArgs, bind_apply] at h
  cases hstr : (argstr u 0 rs).1 with
  | none =>
    rw [hstr] at h
    cases h
  | some x =>
    rw [hstr] at h
    dsimp only at h
    rw [bind_apply] at h
    cases hint : (argint u 1 (argstr u 0 rs).2).1 with
    | none =>
      rw [hint] at h
      cases h
    | some uargv =>
      rw [hint] at h
      dsimp only at h
      rw [bind_apply] at h
      cases hvec : (argvLoop u uargv MAXARG 0 [] (argint u 1 (argstr u 0 rs).2).2).1 with
      | none =>
        rw [hvec] at h
        cases h
      | some argv' =>
        rw [hvec] at h
        cases h
        refine ⟨⟨_, ((argstr_some hsz).mp (hstr : _ = some (x.1, x.2))).2⟩, uargv, ?_⟩
        refine argvLoop_some hsz ?_ ?_ ?_ hvec
        · rfl
        · rfl
        · intro j p hp
          cases hp

/-- **`sys_waitx`** hands to `waitx` pointers to two words of the process. -/
lemma sysWaitxArgs_some {pw pr : ℕ} (h : (sysWaitxArgs u rs).1 = some (pw, pr)) :
    pw + 4 ≤ u.sz ∧ pr + 4 ≤ u.sz := by
  rw [sysWaitxArgs, bind_apply] at h
  cases hw : (argptr u 0 4 rs).1 with
  | none =>
    rw [hw] at h
    cases h
  | some pw' =>
    rw [hw] at h
    dsimp only at h
    rw [bind_apply] at h
    cases hr : (argptr u 1 4 (argptr u 0 4 rs).2).1 with
    | none =>
      rw [hr] at h
      cases h
    | some pr' =>
      rw [hr] at h
      cases h
      have hpw := (argptr_some hsz (by decide)).mp hw
      have hpr := (argptr_some hsz (by decide)).mp hr
      omega

lemma sysWaitxArgs_inside : Inside u (sysWaitxArgs u) := by
  refine (argptr_inside hsz 0 4).bind fun rs => ?_
  cases (argptr u 0 4 rs).1 with
  | none => exact .pure _
  | some pw =>
    refine (argptr_inside hsz 1 4).bind fun rs => ?_
    cases (argptr u 1 4 rs).1 with
    | none => exact .pure _
    | some pr => exact .pure _

end

/-- **Arguments stay inside the process**: what each function accepts, and that none reads a byte
outside. -/
theorem arguments_inside (u : User) (hsz : u.sz < KERNBASE) :
    (∀ addr rs w, (fetchint u addr rs).1 = some w ↔ addr + 4 ≤ u.sz ∧ w = word u addr) ∧
      (∀ n rs w, (argint u n rs).1 = some w ↔
        argAddr u n + 4 ≤ u.sz ∧ w = word u (argAddr u n)) ∧
      (∀ n size rs p, -2 ^ 31 ≤ size → size < 2 ^ 31 → ((argptr u n size rs).1 = some p ↔
        (argAddr u n + 4 ≤ u.sz ∧ p = word u (argAddr u n)) ∧
          0 ≤ size ∧ p < u.sz ∧ (p : ℤ) + size ≤ u.sz)) ∧
      (∀ addr rs p len, (fetchstr u addr rs).1 = some (p, len) ↔ p = addr ∧ IsString u addr len) ∧
      (∀ n rs p len, (argstr u n rs).1 = some (p, len) ↔
        (argAddr u n + 4 ≤ u.sz ∧ p = word u (argAddr u n)) ∧ IsString u p len) ∧
      (∀ rs path argv, (sysExecArgs u rs).1 = some (path, argv) →
        (∃ n, IsString u path n) ∧ ∃ uargv, IsVector u uargv argv) ∧
      (∀ rs pw pr, (sysWaitxArgs u rs).1 = some (pw, pr) → pw + 4 ≤ u.sz ∧ pr + 4 ≤ u.sz) ∧
      (∀ addr, Inside u (fetchint u addr) ∧ Inside u (fetchstr u addr)) ∧
      (∀ n size, Inside u (argint u n) ∧ Inside u (argptr u n size) ∧ Inside u (argstr u n)) ∧
      Inside u (sysExecArgs u) ∧ Inside u (sysWaitxArgs u) :=
  ⟨fun _ _ _ => fetchint_some hsz, fun _ _ _ => argint_some hsz _,
    fun _ _ _ _ _ hsize => argptr_some hsz hsize, fun _ _ _ _ => fetchstr_some,
    fun _ _ _ _ => argstr_some hsz, fun _ _ _ => sysExecArgs_some hsz,
    fun _ _ _ => sysWaitxArgs_some hsz,
    fun addr => ⟨fetchint_inside hsz addr, fetchstr_inside addr⟩,
    fun n size => ⟨argint_inside hsz n, argptr_inside hsz n size, argstr_inside hsz n⟩,
    sysExecArgs_inside hsz, sysWaitxArgs_inside hsz⟩

/-- A process of one page, with its stack pointer two words below the end and a buffer of eight
bytes as its argument. -/
def onePage : User := ⟨4096, 4088, fun a => if a = 4092 then 0xf8 else if a = 4093 then 0x0f else 0⟩

theorem arguments_inside_onePage : onePage.sz < KERNBASE ∧
    (argptr onePage 0 8 []).1 = some 4088 ∧ (argptr onePage 0 9 []).1 ≠ some 4088 ∧
    (argint onePage 1 []).1 ≠ some 0 := by
  have h := arguments_inside onePage (by decide)
  have haddr : argAddr onePage 0 = 4092 := by decide
  have hword : word onePage 4092 = 4088 := by decide
  have hptr := h.2.2.1
  refine ⟨by decide, (hptr 0 8 [] 4088 (by decide) (by decide)).mpr ?_, fun hr => ?_, fun hr => ?_⟩
  · rw [haddr, hword]
    decide
  · have hle := ((hptr 0 9 [] 4088 (by decide) (by decide)).mp hr).2.2.2
    exact absurd hle (by decide)
  · exact absurd ((h.2.1 1 [] 0).mp hr).1 (by decide)

end Xv6.Arguments
