import Xv6.Vm.Memory

/-!
The search for processors in the tables of the firmware (`mp.c`).

Addresses are physical; `P2V` adds the same number to all of them, and the page table of the kernel
has no page for some. The bytes of the tables are arbitrary.

* `mpsearch`, `mpconfig`, `mpinit`: the functions of `mp.c`. The loop over the entries of the
  table gets `fuel`, and has no result when it runs out.  To search or to read a table at an
  address without a page is a fault; a table does not go past the end of the pages.
* `Entry`: the entries of a table, one after the other.
* `entryLoop_ends`, `entryLoop_stuck`: the loop ends on entries of known types, and never
  leaves an entry of another type.
* `mpinit_ends_iff`: when the scan does what it should.
-/

namespace Xv6.Mp

open Function

/-- Maximum number of CPUs. -/
def NCPU : ℕ := 8

/-! ### The tables -/

/-- Two bytes, least significant first. -/
def le16 (mem : ℕ → ℕ) (a : ℕ) : ℕ := mem a + 2 ^ 8 * mem (a + 1)

/-- Four bytes, least significant first. -/
def le32 (mem : ℕ → ℕ) (a : ℕ) : ℕ := le16 mem a + 2 ^ 16 * le16 mem (a + 2)

/-- `memcmp(addr, sig, 4) == 0` -/
def hasSignature (mem : ℕ → ℕ) (addr : ℕ) (sig : List ℕ) : Bool :=
  (List.range sig.length).map (fun i => mem (addr + i)) == sig

/-- `sum`, which returns a `uchar`. -/
def sum (mem : ℕ → ℕ) (addr len : ℕ) : ℕ :=
  ((List.range len).foldl (fun acc i => acc + mem (addr + i)) 0) % 2 ^ 8

/-- `sizeof(struct mp)` -/
def mpSize : ℕ := 16

/-- `mpsearch1` from `p` on, with `n` places left. -/
def searchLoop (mem : ℕ → ℕ) (p : ℕ) : ℕ → Option ℕ
  | 0 => none
  | n + 1 =>
    -- the signature is `_MP_`
    if hasSignature mem p [95, 77, 80, 95] && sum mem p mpSize == 0 then some p
    else searchLoop mem (p + mpSize) n

/-- How `mpinit` stops. -/
inductive Panic
  /-- A page fault in the kernel -/
  | fault
  /-- Expect to run on an SMP -/
  | noSmp
  /-- Didn't find a suitable machine -/
  | unsuitable
  deriving DecidableEq, Repr

/-- There is a page for `P2V(a)`: `kmap` has the memory below `PHYSTOP` and the devices.  Past the
end of the addresses `P2V` wraps around to where the processes are, and there is none yet. -/
def Mapped (a : ℕ) : Prop :=
  a < Vm.PHYSTOP ∨ Vm.DEVSPACE ≤ Vm.KERNBASE + a ∧ Vm.KERNBASE + a < 2 ^ 32

instance (a : ℕ) : Decidable (Mapped a) := inferInstanceAs (Decidable (_ ∨ _))

/-- Look for an MP structure in the `len` bytes at `a`. -/
def mpsearch1 (mem : ℕ → ℕ) (a len : ℕ) : Except Panic (Option ℕ) :=
  if Mapped a then pure (searchLoop mem a (len / mpSize)) else throw .fault

/-- The segment of the EBDA, from the BIOS data area. -/
def ebda (mem : ℕ → ℕ) : ℕ := le16 mem (0x400 + 0x0E) * 2 ^ 4

/-- The size of the base memory, from the BIOS data area. -/
def baseMemory (mem : ℕ → ℕ) : ℕ := le16 mem (0x400 + 0x13) * 1024

/-- Search for the MP floating pointer structure. -/
def mpsearch (mem : ℕ → ℕ) : Except Panic (Option ℕ) := do
  let first ←
    if ebda mem ≠ 0 then mpsearch1 mem (ebda mem) 1024
    -- without base memory, `p - 1024` wraps around
    else mpsearch1 mem ((baseMemory mem + 2 ^ 32 - 1024) % 2 ^ 32) 1024
  match first with
  | some mp => pure (some mp)
  | none => mpsearch1 mem 0xF0000 0x10000

/-- `mp->physaddr` -/
def physaddr (mem : ℕ → ℕ) (mp : ℕ) : ℕ := le32 mem (mp + 4)

/-- `mp->imcrp` -/
def imcrp (mem : ℕ → ℕ) (mp : ℕ) : ℕ := mem (mp + 12)

/-- `conf->length` -/
def confLength (mem : ℕ → ℕ) (conf : ℕ) : ℕ := le16 mem (conf + 4)

/-- `conf->version` -/
def confVersion (mem : ℕ → ℕ) (conf : ℕ) : ℕ := mem (conf + 6)

/-- `conf->lapicaddr` -/
def lapicaddr (mem : ℕ → ℕ) (conf : ℕ) : ℕ := le32 mem (conf + 36)

/-- `sizeof(struct mpconf)` -/
def confSize : ℕ := 44

/-- Search for an MP configuration table: the MP structure and the table. -/
def mpconfig (mem : ℕ → ℕ) : Except Panic (Option (ℕ × ℕ)) := do
  let some mp ← mpsearch mem | return none
  if physaddr mem mp = 0 then return none
  let conf := physaddr mem mp
  if ¬ Mapped conf then throw .fault
  -- the signature is `PCMP`
  if ¬ hasSignature mem conf [80, 67, 77, 80] then return none
  if confVersion mem conf ≠ 1 ∧ confVersion mem conf ≠ 4 then return none
  if sum mem conf (confLength mem conf) ≠ 0 then return none
  return some (mp, conf)

/-! ### The scan -/

/-- The types of entries that `mpinit` knows. -/
inductive EntryType
  | proc
  | bus
  | ioapic
  | iointr
  | lintr
  deriving DecidableEq, Repr

/-- The type of an entry, from its first byte. -/
def entryType : ℕ → Option EntryType
  | 0 => some .proc
  | 1 => some .bus
  | 2 => some .ioapic
  | 3 => some .iointr
  | 4 => some .lintr
  | _ => none

/-- The size of an entry. -/
def EntryType.size : EntryType → ℕ
  | .proc => 20
  | .ioapic => 8
  | .bus | .iointr | .lintr => 8

/-- What `mpinit` sets: the `apicid` of each CPU, `ncpu`, `ioapicid`, `lapic`, and its own `p` and
`ismp`; `imcr` says whether it has written to the IMCR. -/
structure State where
  apicid : ℕ → ℕ
  ncpu : ℕ
  ioapicid : ℕ
  lapic : ℕ
  p : ℕ
  ismp : Bool
  imcr : Bool

/-- The body of the loop: the `switch` on the type of the entry at `p`. -/
def entryStep (mem : ℕ → ℕ) (s : State) : State :=
  match entryType (mem s.p) with
  | some .proc =>
    let s := if s.ncpu < NCPU then
        { s with apicid := update s.apicid s.ncpu (mem (s.p + 1)), ncpu := s.ncpu + 1 }
      else s
    { s with p := s.p + EntryType.proc.size }
  | some .ioapic =>
    { s with ioapicid := mem (s.p + 1), p := s.p + EntryType.ioapic.size }
  | some t => { s with p := s.p + t.size }
  -- the `break` only leaves the `switch`
  | none => { s with ismp := false }

/-- `for(...; p<e; )` -/
def entryLoop (mem : ℕ → ℕ) (e : ℕ) : ℕ → State → Option State
  | 0, _ => none
  | fuel + 1, s => if s.p < e then entryLoop mem e fuel (entryStep mem s) else some s

/-- The state in which the loop starts. -/
def scanStart (mem : ℕ → ℕ) (conf : ℕ) (s : State) : State :=
  { s with ismp := true, lapic := lapicaddr mem conf, p := conf + confSize }

/-- `mpinit` -/
def mpinit (mem : ℕ → ℕ) (fuel : ℕ) (s : State) : Option (EStateM.Result Panic State Unit) :=
  match mpconfig mem with
  | .error e => some (.error e s)
  | .ok none => some (.error .noSmp s)
  | .ok (some (mp, conf)) =>
    (entryLoop mem (conf + confLength mem conf) fuel (scanStart mem conf s)).map fun t =>
      if t.ismp then .ok () { t with imcr := decide (imcrp mem mp ≠ 0) }
      else .error .unsuitable t

/-- The state when `mpinit` returns or panics. -/
def final : EStateM.Result Panic State Unit → State
  | .ok _ t => t
  | .error _ t => t

/-! ### The entries of a table -/

/-- There is an entry at `q`, in a table that ends at `e` and has an entry at `p`. -/
inductive Entry (mem : ℕ → ℕ) (e : ℕ) : ℕ → ℕ → Prop
  | here {p} : p < e → Entry mem e p p
  | next {p q t} : p < e → entryType (mem p) = some t → Entry mem e (p + t.size) q → Entry mem e p q

/-- The table has an entry of unknown type. -/
def HasUnknown (mem : ℕ → ℕ) (conf : ℕ) : Prop :=
  ∃ q, Entry mem (conf + confLength mem conf) (conf + confSize) q ∧ entryType (mem q) = none

section Scan

variable {mem : ℕ → ℕ} {e : ℕ} {s : State}

/-- An entry of known type is passed. -/
lemma entryStep_known {t : EntryType} (h : entryType (mem s.p) = some t) :
    (entryStep mem s).p = s.p + t.size ∧ (entryStep mem s).ismp = s.ismp := by
  unfold entryStep
  rw [h]
  cases t with
  | proc =>
    dsimp only
    split_ifs <;> exact ⟨rfl, rfl⟩
  | _ => exact ⟨rfl, rfl⟩

lemma entryStep_unknown (h : entryType (mem s.p) = none) :
    entryStep mem s = { s with ismp := false } := by
  unfold entryStep
  rw [h]

/-- No more processors than there is room for. -/
lemma entryStep_ncpu (h : s.ncpu ≤ NCPU) : (entryStep mem s).ncpu ≤ NCPU := by
  unfold entryStep
  split
  · dsimp only
    split_ifs with hlt
    · exact hlt
    · exact h
  all_goals exact h

lemma EntryType.size_pos (t : EntryType) : 0 < t.size := by cases t <;> decide

/-- **Every branch that knows the type makes progress**: by induction on what is left of the
table. -/
lemma entryLoop_ends (hknown : ∀ q, Entry mem e s.p q → entryType (mem q) ≠ none)
    (hncpu : s.ncpu ≤ NCPU) (hismp : s.ismp = true) :
    ∃ fuel t, entryLoop mem e fuel s = some t ∧ t.ncpu ≤ NCPU ∧ t.ismp = true := by
  induction hn : e - s.p using Nat.strong_induction_on generalizing s with
  | _ n ih =>
    by_cases hp : s.p < e
    · obtain ⟨t, ht⟩ := Option.ne_none_iff_exists'.mp (hknown s.p (.here hp))
      obtain ⟨hstep, hismp'⟩ := entryStep_known ht
      have hsize := t.size_pos
      obtain ⟨fuel, u, hloop, hu⟩ := ih (e - (entryStep mem s).p) (by omega)
        (fun q hq => hknown q (.next hp ht (hstep ▸ hq))) (entryStep_ncpu hncpu)
        (hismp'.trans hismp) rfl
      exact ⟨fuel + 1, u, by rw [entryLoop, if_pos hp, hloop], hu⟩
    · exact ⟨1, s, by rw [entryLoop, if_neg hp], hncpu, hismp⟩

/-- At an entry of unknown type the loop stays. -/
lemma entryLoop_unknown (hp : s.p < e) (h : entryType (mem s.p) = none) (fuel : ℕ) :
    entryLoop mem e fuel s = none := by
  induction fuel generalizing s with
  | zero => rfl
  | succ fuel ih =>
    rw [entryLoop, if_pos hp, entryStep_unknown h]
    exact ih hp h

/-- **The loop does not get past an entry of unknown type.** -/
lemma entryLoop_stuck {q : ℕ} (h : Entry mem e s.p q) (hq : entryType (mem q) = none)
    (fuel : ℕ) : entryLoop mem e fuel s = none := by
  generalize hp : s.p = p at h
  induction h generalizing s fuel with
  | here hlt =>
    subst hp
    exact entryLoop_unknown hlt hq fuel
  | next hlt ht _ ih =>
    subst hp
    cases fuel with
    | zero => rfl
    | succ fuel =>
      rw [entryLoop, if_pos hlt]
      exact ih hq _ (entryStep_known ht).1

end Scan

/-- **When the scan does what it should**: it ends with at most `NCPU` processors, and with a
panic if the table has an entry of unknown type, exactly if the table has no such entry. -/
theorem mpinit_ends_iff {mem : ℕ → ℕ} {mp conf : ℕ} (hconf : mpconfig mem = .ok (some (mp, conf)))
    {s : State} (hncpu : s.ncpu ≤ NCPU) :
    (∃ fuel r, mpinit mem fuel s = some r ∧ (final r).ncpu ≤ NCPU ∧
      (HasUnknown mem conf → ∃ t, r = .error .unsuitable t)) ↔ ¬ HasUnknown mem conf := by
  simp only [mpinit, hconf]
  constructor
  · rintro ⟨fuel, r, hr, -⟩ ⟨q, hq, hnone⟩
    have hstuck : entryLoop mem (conf + confLength mem conf) fuel (scanStart mem conf s) = none :=
      entryLoop_stuck hq hnone fuel
    rw [hstuck] at hr
    cases hr
  · intro hno
    obtain ⟨fuel, t, hloop, ht, hismp⟩ := entryLoop_ends (s := scanStart mem conf s)
      (fun q hq hnone => hno ⟨q, hq, hnone⟩) hncpu rfl
    refine ⟨fuel, _, by rw [hloop, Option.map_some], ?_, fun h => absurd h hno⟩
    rw [if_pos hismp]
    exact ht

/-! ### Two tables -/

/-- Memory with `bytes` at `base`. -/
def memoryAt (base : ℕ) (bytes : List ℕ) (mem : ℕ → ℕ) : ℕ → ℕ :=
  fun a => if base ≤ a then bytes.getD (a - base) (mem a) else mem a

/-- The MP structure at `0xF0000`, for a table at `0x1000`. -/
def floating : List ℕ := [95, 77, 80, 95, 0, 16, 0, 0, 1, 4, 0, 0, 0, 0, 0, 0]

/-- The bytes of `l` add up to 0 with this one. -/
def checksum (l : List ℕ) : ℕ := (2 ^ 8 - l.sum % 2 ^ 8) % 2 ^ 8

/-- The header of a table, for entries of `len` bytes in all. -/
def header (len check : ℕ) : List ℕ :=
  [80, 67, 77, 80, 44 + len, 0, 4, check] ++ List.replicate 36 0

/-- A machine with 639 KB of base memory, whose table has these entries. -/
def machine (entries : List ℕ) : ℕ → ℕ :=
  memoryAt 0xF0000 (floating.set 10 (checksum floating))
    (memoryAt 0x1000
      (header entries.length (checksum (header entries.length 0 ++ entries)) ++ entries)
      (memoryAt 0x413 [127, 2] fun _ => 0))

/-- `mpinit` is called with everything 0. -/
def bootState : State := ⟨fun _ => 0, 0, 0, 0, 0, false, false⟩

/-- A processor, and an I/O APIC. -/
def twoEntries : List ℕ := [0, 7] ++ List.replicate 18 0 ++ [2, 9, 0, 0, 0, 0, 0, 0]

/-- An entry of the type 5. -/
def strangeEntry : List ℕ := [5, 0, 0, 0, 0, 0, 0, 0]

theorem mpinit_ends_machine : ∃ fuel r, mpinit (machine twoEntries) fuel bootState = some r ∧
    (final r).ncpu ≤ NCPU ∧
      (HasUnknown (machine twoEntries) 0x1000 → ∃ t, r = .error .unsuitable t) := by
  have hconf : mpconfig (machine twoEntries) = .ok (some (0xF0000, 0x1000)) := by decide +kernel
  have hends : (entryLoop (machine twoEntries) (0x1000 + confLength (machine twoEntries) 0x1000) 4
    (scanStart (machine twoEntries) 0x1000 bootState)).isSome = true := by decide +kernel
  refine (mpinit_ends_iff hconf (by decide)).mpr ?_
  rintro ⟨q, hq, hnone⟩
  rw [entryLoop_stuck hq hnone 4] at hends
  cases hends

/-- **A table with an entry of another type**: `mpinit` accepts it and does not end. -/
theorem mpinit_strange : mpconfig (machine strangeEntry) = .ok (some (0xF0000, 0x1000)) ∧
    HasUnknown (machine strangeEntry) 0x1000 ∧
    ∀ fuel, mpinit (machine strangeEntry) fuel bootState = none := by
  have hconf : mpconfig (machine strangeEntry) = .ok (some (0xF0000, 0x1000)) := by decide +kernel
  have hlt : 0x1000 + confSize < 0x1000 + confLength (machine strangeEntry) 0x1000 := by
    decide +kernel
  have hnone : entryType (machine strangeEntry (0x1000 + confSize)) = none := by decide +kernel
  refine ⟨hconf, ⟨_, .here hlt, hnone⟩, fun fuel => ?_⟩
  have hstuck : entryLoop _ _ fuel (scanStart (machine strangeEntry) 0x1000 bootState) = none :=
    entryLoop_stuck (.here hlt) hnone fuel
  rw [mpinit, hconf]
  dsimp only
  rw [hstuck, Option.map_none]

end Xv6.Mp
