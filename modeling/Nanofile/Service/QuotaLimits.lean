import Mathlib.Algebra.Order.BigOperators.Group.List
import Mathlib.Data.Int.ConditionallyCompleteOrder
import Nanofile.Base.Numbers
import Nanofile.Service.Quota

/-!
# Quota checks near the limits of `i64`

A size is declared as a 64-bit number, cast where it crosses from unsigned to signed, and added to
the usage before it is compared.  The checks agree with the comparison of unbounded numbers exactly
while nothing leaves the range.
-/

set_option autoImplicit false

namespace Nanofile

open Nanofile.Lib

structure AccountQuota where
  storageQuota : Option Int
  defaultQuota : Nat
  storageFits : ∀ quota, storageQuota = some quota → InI64 quota
  defaultFits : defaultQuota < 2 ^ 64

def AccountQuota.unlimited : AccountQuota := ⟨none, 0, by simp, by decide⟩

def AccountQuota.effective (account : AccountQuota) : Option Int :=
  let quota := match account.storageQuota with
    | some quota => quota
    | none => asI64 account.defaultQuota
  if account.storageQuota = some 0 ∨ quota ≤ 0 then none else some quota

def AccountQuota.allowance (account : AccountQuota) : Option Int :=
  let quota := match account.storageQuota with
    | some quota => quota
    | none => account.defaultQuota
  if quota ≤ 0 then none else some quota

section Checks

variable (mode : OverflowMode) (account : AccountQuota) (usage : Int)

def checkUploadQuota (delta : Int) : Except QuotaFault Unit :=
  if delta ≤ 0 then .ok ()
  else match account.effective with
    | none => .ok ()
    | some quota => do
        let sum ← addI64 mode usage delta
        if sum > quota then .error .exceeded else .ok ()

def checkSyncQuota (delta : Int) : Except QuotaFault Unit :=
  match account.effective with
  | none => .ok ()
  | some quota => do
      let sum ← addI64 mode usage (max delta 0)
      if sum ≥ quota then .error .exceeded else .ok ()

/-- `str::parse::<i64>` of a length, as far as it is positive. -/
def precheckQuota (contentLength : Nat) : Except QuotaFault Unit :=
  if contentLength < 2 ^ 63 ∧ 0 < contentLength then checkUploadQuota mode account usage contentLength
  else .ok ()

variable {User Library : Type} [DecidableEq User] [DecidableEq Library]
  (reserved : Ledger (User × Library)) (key : User × Library)

def reserveBlockBytesI64 (delta : Int) : Except QuotaFault (Ledger (User × Library)) :=
  if delta ≤ 0 then .ok reserved
  else match account.effective with
    | none => .ok reserved
    | some quota => reserveIfFits mode reserved key delta usage quota

end Checks

structure QuotaCase (User Library : Type) where
  account : AccountQuota
  usage : Int
  usageFits : 0 ≤ usage ∧ usage < 2 ^ 63
  reserved : Ledger (User × Library)
  positive : reserved.Positive
  key : User × Library

/-- A size as a client declares it: the length of a body, the file size of a range, which is not
empty, or the delta of a quota check. -/
inductive DeclaredSize where
  | contentLength (bytes : Nat)
  | fileSize (bytes : Nat) (declared : 0 < bytes ∧ bytes < 2 ^ 64)
  | syncDelta (delta : Int) (parsed : InI64 delta)

section Decisions

variable {User Library : Type} [DecidableEq User] [DecidableEq Library]

namespace QuotaCase

def decides (mode : OverflowMode) (quotaCase : QuotaCase User Library) :
    DeclaredSize → Except QuotaFault Unit
  | .contentLength bytes => precheckQuota mode quotaCase.account quotaCase.usage bytes
  | .fileSize bytes _ => (reserveBlockBytesI64 mode quotaCase.account quotaCase.usage
      quotaCase.reserved quotaCase.key (asI64 bytes)).map fun _ => ()
  | .syncDelta delta _ => checkSyncQuota mode quotaCase.account quotaCase.usage delta

def charged (quotaCase : QuotaCase User Library) : Int :=
  quotaCase.usage + reservedTotal quotaCase.reserved quotaCase.key.1

/-- The comparison of unbounded numbers; no size above the type is taken. -/
def Refuses (quotaCase : QuotaCase User Library) : DeclaredSize → Prop
  | .contentLength bytes => 2 ^ 63 ≤ bytes ∨ ∃ quota, quotaCase.account.allowance = some quota ∧
      quota < quotaCase.usage + bytes
  | .fileSize bytes _ => 2 ^ 63 ≤ bytes ∨ ∃ quota, quotaCase.account.allowance = some quota ∧
      quota < quotaCase.charged + bytes
  | .syncDelta delta _ => ∃ quota, quotaCase.account.allowance = some quota ∧
      quota ≤ quotaCase.usage + max delta 0

/-- Every build answers like the comparison. -/
def DecidesExactly (quotaCase : QuotaCase User Library) (size : DeclaredSize) : Prop :=
  ∀ mode, (quotaCase.decides mode size = .error .exceeded ∧ quotaCase.Refuses size) ∨
    (quotaCase.decides mode size = .ok () ∧ ¬ quotaCase.Refuses size)

/-- The sizes and sums stay in the range, and a usage above the quota meets no empty body. -/
def InRange (quotaCase : QuotaCase User Library) : DeclaredSize → Prop
  | .contentLength bytes => bytes < 2 ^ 63 ∧ ∀ quota, quotaCase.account.allowance = some quota →
      if bytes = 0 then quotaCase.usage ≤ quota
      else quotaCase.usage + bytes < 2 ^ 63 ∨ quotaCase.usage + bytes ≤ quota
  | .fileSize bytes _ => bytes < 2 ^ 63 ∧ ∀ quota, quotaCase.account.allowance = some quota →
      quotaCase.charged + bytes < 2 ^ 63 ∨ quotaCase.charged + bytes ≤ quota
  | .syncDelta delta _ => ∀ quota, quotaCase.account.allowance = some quota →
      quotaCase.usage + max delta 0 < 2 ^ 63 ∨ quotaCase.usage + max delta 0 < quota

end QuotaCase

/-! ## Sums -/

theorem addI64_of_inI64 {mode : OverflowMode} {left right : Int} (fits : InI64 (left + right)) :
    addI64 mode left right = .ok (left + right) := if_pos fits

theorem addI64_panics {left right : Int} (outside : ¬ InI64 (left + right)) :
    addI64 .panics left right = .error .overflow := if_neg outside

/-- Positive amounts add up when their sum is in the range, and overflow on the way when not. -/
theorem sumI64_from (mode : OverflowMode) : ∀ (amounts : List Int) (start : Int),
    (∀ amount ∈ amounts, 0 < amount) → 0 ≤ start → start < 2 ^ 63 →
      (start + amounts.sum < 2 ^ 63 →
        amounts.foldlM (addI64 mode) start = .ok (start + amounts.sum)) ∧
      (2 ^ 63 ≤ start + amounts.sum →
        amounts.foldlM (addI64 .panics) start = .error .overflow) := by
  intro amounts
  induction amounts with
  | nil =>
    intro start _ _ below
    refine ⟨fun _ => by simp; rfl, fun above => ?_⟩
    simp only [List.sum_nil] at above
    omega
  | cons amount rest ih =>
    intro start positive nonneg below
    have more := positive amount List.mem_cons_self
    have restPositive : ∀ other ∈ rest, 0 < other :=
      fun other listed => positive other (List.mem_cons_of_mem _ listed)
    have restNonneg : 0 ≤ rest.sum := List.sum_nonneg fun other listed =>
      Int.le_of_lt (restPositive other listed)
    simp only [List.sum_cons, List.foldlM_cons]
    by_cases fits : start + amount < 2 ^ 63
    · obtain ⟨inside, outside⟩ := ih (start + amount) restPositive (by omega) fits
      have within : InI64 (start + amount) := ⟨by omega, fits⟩
      rw [addI64_of_inI64 within, addI64_of_inI64 within, ← Int.add_assoc]
      exact ⟨inside, outside⟩
    · refine ⟨fun inside => by omega, fun _ => ?_⟩
      rw [addI64_panics fun within => fits within.2]
      rfl

section

omit [DecidableEq Library]

variable {reserved : Ledger (User × Library)}

theorem amountsOf_pos (positive : reserved.Positive) (user : User) :
    ∀ amount ∈ amountsOf reserved user, 0 < amount := by
  intro amount listed
  obtain ⟨row, isRow, rfl⟩ := List.mem_map.mp listed
  exact positive row (List.mem_of_mem_filter isRow)

theorem reservedTotal_nonneg (positive : reserved.Positive)
    (user : User) : 0 ≤ reservedTotal reserved user :=
  Ledger.sum_ifs_nonneg (fun key : User × Library => decide (key.1 = user)) positive

end

/-! ## Quotas -/

/-- An unlimited account, one whose quota fits the type, or one whose quota the cast turns into an
unlimited one. -/
theorem effective_cases (account : AccountQuota) :
    (account.allowance = none ∧ account.effective = none) ∨
      (∃ quota, account.allowance = some quota ∧ account.effective = some quota ∧
        quota < 2 ^ 63) ∨
      ∃ quota, account.allowance = some quota ∧ account.effective = none ∧ 2 ^ 63 ≤ quota := by
  unfold AccountQuota.effective AccountQuota.allowance
  cases stored : account.storageQuota with
  | some quota =>
    dsimp only
    by_cases limited : quota ≤ 0
    · exact Or.inl ⟨if_pos limited, if_pos (Or.inr limited)⟩
    · have nonzero : ¬ (some quota = some 0 ∨ quota ≤ 0) := by
        rintro (zero | nonpos)
        · exact limited (Int.le_of_eq (Option.some.inj zero))
        · exact limited nonpos
      exact Or.inr (Or.inl ⟨quota, if_neg limited, if_neg nonzero,
        (account.storageFits quota stored).2⟩)
  | none =>
    dsimp only
    have fits := account.defaultFits
    have cast : asI64 account.defaultQuota = (account.defaultQuota : Int) ∧
        account.defaultQuota < 2 ^ 63 ∨
        asI64 account.defaultQuota ≤ 0 ∧ 2 ^ 63 ≤ account.defaultQuota := by
      unfold asI64
      rw [Int.bmod_def]
      omega
    rcases cast with ⟨same, small⟩ | ⟨nonpos, large⟩
    · rw [same]
      by_cases limited : (account.defaultQuota : Int) ≤ 0
      · exact Or.inl ⟨if_pos limited, if_pos (Or.inr limited)⟩
      · exact Or.inr (Or.inl ⟨account.defaultQuota, if_neg limited,
          if_neg (by rintro (absent | nonpos) <;> [cases absent; exact limited nonpos]), by omega⟩)
    · exact Or.inr (Or.inr ⟨account.defaultQuota, if_neg (by omega), if_pos (Or.inr nonpos),
        by omega⟩)

/-! ## The checks -/

variable {quotaCase : QuotaCase User Library}

/-- What a check of a sum against the quota answers, by what the cast leaves of the quota. -/
structure Compares (account : AccountQuota) (sum : Int) (beyond : Int → Prop) [DecidablePred beyond]
    (answer : OverflowMode → Except QuotaFault Unit) : Prop where
  unlimited : account.effective = none → ∀ mode, answer mode = .ok ()
  inside : ∀ quota, account.effective = some quota → sum < 2 ^ 63 →
    ∀ mode, answer mode = if beyond quota then .error .exceeded else .ok ()
  outside : ∀ quota, account.effective = some quota → 2 ^ 63 ≤ sum →
    answer .panics = .error .overflow

/-- The answer in every build is that of a comparison which refuses or admits. -/
def AnswersLike (refuses : Prop) (answer : OverflowMode → Except QuotaFault Unit) : Prop :=
  ∀ mode, (answer mode = .error .exceeded ∧ refuses) ∨ (answer mode = .ok () ∧ ¬ refuses)

variable {answer : OverflowMode → Except QuotaFault Unit}

theorem admitted_iff {refuses : Prop} (admits : ∀ mode, answer mode = .ok ()) :
    AnswersLike refuses answer ↔ ¬ refuses := by
  constructor
  · intro alike
    rcases alike .wraps with ⟨refused, -⟩ | ⟨-, unrefused⟩
    · rw [admits] at refused
      cases refused
    · exact unrefused
  · exact fun unrefused mode => Or.inr ⟨admits mode, unrefused⟩

variable {account : AccountQuota}

/-- A check of a sum answers like the comparison exactly when the sum is in the range, or the
quota is not and the sum does not exceed it. -/
theorem Compares.answersLike_iff {sum : Int} {beyond : Int → Prop}
    [DecidablePred beyond] (compares : Compares account sum beyond answer)
    (above : ∀ quota, quota < 2 ^ 63 → 2 ^ 63 ≤ sum → beyond quota)
    (below : ∀ quota, 2 ^ 63 ≤ quota → sum < 2 ^ 63 → ¬ beyond quota) :
    AnswersLike (∃ quota, account.allowance = some quota ∧ beyond quota) answer ↔
      ∀ quota, account.allowance = some quota → sum < 2 ^ 63 ∨ ¬ beyond quota := by
  rcases effective_cases account with
    ⟨unlimited, cast⟩ | ⟨quota, limited, cast, small⟩ | ⟨quota, limited, cast, large⟩
  · rw [admitted_iff (compares.unlimited cast), unlimited]
    simp
  · simp only [limited, Option.some.injEq, exists_eq_left', forall_eq']
    constructor
    · intro alike
      by_contra wide
      obtain ⟨outside, -⟩ := not_or.mp wide
      have stopped := compares.outside quota cast (Int.not_lt.mp outside)
      rcases alike .panics with ⟨refused, -⟩ | ⟨admitted, -⟩
      · rw [stopped] at refused
        cases refused
      · rw [stopped] at admitted
        cases admitted
    · intro within mode
      have fits : sum < 2 ^ 63 := by
        rcases within with fits | unrefused
        · exact fits
        · by_contra outside
          exact unrefused (above quota small (Int.not_lt.mp outside))
      rw [compares.inside quota cast fits mode]
      by_cases isOver : beyond quota
      · exact Or.inl ⟨if_pos isOver, isOver⟩
      · exact Or.inr ⟨if_neg isOver, isOver⟩
  · rw [admitted_iff (compares.unlimited cast)]
    simp only [limited, Option.some.injEq, exists_eq_left', forall_eq']
    exact ⟨Or.inr, fun within => within.elim (below quota large) id⟩

/-! ### The three requests -/

theorem compares_upload {usage delta : Int} (nonneg : 0 ≤ usage)
    (more : 0 < delta) : Compares account (usage + delta) (fun quota => quota < usage + delta)
      fun mode => checkUploadQuota mode account usage delta := by
  refine ⟨fun cast mode => ?_, fun quota cast fits mode => ?_, fun quota cast outside => ?_⟩
  · rw [checkUploadQuota, if_neg (by omega), cast]
  · rw [checkUploadQuota, if_neg (by omega), cast]
    simp only [addI64_of_inI64 (show InI64 (usage + delta) from ⟨by omega, fits⟩)]
    rfl
  · rw [checkUploadQuota, if_neg (by omega), cast]
    simp only [addI64_panics fun within : InI64 (usage + delta) => absurd within.2 (by omega)]
    rfl

theorem compares_sync {usage delta : Int} (nonneg : 0 ≤ usage) :
    Compares account (usage + max delta 0) (fun quota => quota ≤ usage + max delta 0)
      fun mode => checkSyncQuota mode account usage delta := by
  refine ⟨fun cast mode => ?_, fun quota cast fits mode => ?_, fun quota cast outside => ?_⟩
  · rw [checkSyncQuota, cast]
  · rw [checkSyncQuota, cast]
    simp only [addI64_of_inI64 (show InI64 (usage + max delta 0) from ⟨by omega, fits⟩)]
    rfl
  · rw [checkSyncQuota, cast]
    simp only [addI64_panics fun within : InI64 (usage + max delta 0) => absurd within.2 (by omega)]
    rfl

section Reserve

variable {reserved : Ledger (User × Library)} {key : User × Library} {delta committed quota : Int}

theorem reserveIfFits_inside (positive : reserved.Positive) (nonneg : 0 ≤ committed)
    (more : 0 < delta) (fits : committed + reservedTotal reserved key.1 + delta < 2 ^ 63)
    (mode : OverflowMode) :
    (reserveIfFits mode reserved key delta committed quota).map (fun _ => ()) =
      if quota < committed + reservedTotal reserved key.1 + delta then .error .exceeded
      else .ok () := by
  have total := reservedTotal_nonneg positive key.1
  have summed := (sumI64_from mode (amountsOf reserved key.1) 0 (amountsOf_pos positive key.1)
    (Int.le_refl 0) (by decide)).1 (by rw [sum_amountsOf]; omega)
  rw [sum_amountsOf, Int.zero_add] at summed
  rw [reserveIfFits, if_neg (by omega), sumI64, summed]
  simp only [bind, Except.bind, addI64_of_inI64
    (show InI64 (committed + reservedTotal reserved key.1) from ⟨by omega, by omega⟩),
    addI64_of_inI64 (show InI64 (committed + reservedTotal reserved key.1 + delta) from
      ⟨by omega, fits⟩)]
  by_cases beyond : committed + reservedTotal reserved key.1 + delta > quota
  · rw [if_pos beyond, if_pos beyond]
    rfl
  · rw [if_neg beyond, if_neg beyond]
    split
    · split <;> rfl
    · rfl

theorem reserveIfFits_outside (positive : reserved.Positive) (nonneg : 0 ≤ committed)
    (committedFits : committed < 2 ^ 63) (more : 0 < delta)
    (outside : 2 ^ 63 ≤ committed + reservedTotal reserved key.1 + delta) :
    reserveIfFits .panics reserved key delta committed quota = .error .overflow := by
  have total := reservedTotal_nonneg positive key.1
  obtain ⟨summed, stops⟩ := sumI64_from .panics (amountsOf reserved key.1) 0
    (amountsOf_pos positive key.1) (Int.le_refl 0) (by decide)
  rw [sum_amountsOf, Int.zero_add] at summed stops
  unfold reserveIfFits sumI64
  rw [if_neg (by omega)]
  by_cases totalFits : reservedTotal reserved key.1 < 2 ^ 63
  · rw [summed totalFits]
    by_cases chargedFits : committed + reservedTotal reserved key.1 < 2 ^ 63
    · simp only [bind, Except.bind, addI64_of_inI64
        (show InI64 (committed + reservedTotal reserved key.1) from ⟨by omega, chargedFits⟩),
        addI64_panics fun within : InI64 (committed + reservedTotal reserved key.1 + delta) =>
          absurd within.2 (by omega)]
    · simp only [bind, Except.bind,
        addI64_panics fun within : InI64 (committed + reservedTotal reserved key.1) =>
          absurd within.2 (by omega)]
  · rw [stops (by omega)]
    rfl

theorem compares_reserve (positive : reserved.Positive)
    (nonneg : 0 ≤ committed) (committedFits : committed < 2 ^ 63) (more : 0 < delta) :
    Compares account (committed + reservedTotal reserved key.1 + delta)
      (fun quota => quota < committed + reservedTotal reserved key.1 + delta)
      fun mode => (reserveBlockBytesI64 mode account committed reserved key delta).map
        fun _ => () := by
  refine ⟨fun cast mode => ?_, fun quota cast fits mode => ?_, fun quota cast outside => ?_⟩
  · rw [reserveBlockBytesI64, if_neg (by omega), cast]
    rfl
  · rw [reserveBlockBytesI64, if_neg (by omega), cast]
    dsimp only
    rw [reserveIfFits_inside positive nonneg more fits]
  · rw [reserveBlockBytesI64, if_neg (by omega), cast]
    dsimp only
    rw [reserveIfFits_outside positive nonneg committedFits more outside]
    rfl

end Reserve

/-- A size above the type is always refused by the comparison and always admitted by a check that
does not see it. -/
theorem not_answersLike {refuses : Prop} (admits : ∀ mode, answer mode = .ok ())
    (refused : refuses) : ¬ AnswersLike refuses answer :=
  fun alike => (admitted_iff admits).mp alike refused

/-- Every check answers like the comparison of unbounded numbers, in every build, exactly when the
declared size and its sums stay in the range. -/
theorem quota_decides_exactly_iff (quotaCase : QuotaCase User Library) (size : DeclaredSize) :
    quotaCase.DecidesExactly size ↔ quotaCase.InRange size := by
  obtain ⟨nonneg, usageFits⟩ := quotaCase.usageFits
  have total := reservedTotal_nonneg quotaCase.positive quotaCase.key.1
  show AnswersLike (quotaCase.Refuses size) (fun mode => quotaCase.decides mode size) ↔ _
  cases size with
  | contentLength bytes =>
    by_cases parsed : bytes < 2 ^ 63
    · have unlarge : ¬ 2 ^ 63 ≤ bytes := Nat.not_le.mpr parsed
      simp only [QuotaCase.Refuses, QuotaCase.InRange, unlarge, false_or, parsed, true_and]
      by_cases empty : bytes = 0
      · have admits : ∀ mode, quotaCase.decides mode (.contentLength bytes) = .ok () :=
          fun mode => if_neg fun both => by omega
        rw [admitted_iff admits]
        simp [empty]
      · have compares : Compares quotaCase.account (quotaCase.usage + bytes) _ _ :=
          compares_upload nonneg (by omega)
        have asked : (fun mode => quotaCase.decides mode (.contentLength bytes)) =
            fun mode => checkUploadQuota mode quotaCase.account quotaCase.usage bytes :=
          funext fun mode => if_pos ⟨parsed, by omega⟩
        rw [asked, compares.answersLike_iff (fun quota _ _ => by omega) (fun quota _ _ => by omega)]
        simp only [if_neg empty, Int.not_lt]
    · refine iff_of_false (not_answersLike (fun mode => if_neg fun both => parsed both.1)
        (Or.inl (Nat.not_lt.mp parsed))) fun within => parsed within.1
  | fileSize bytes declared =>
    by_cases small : bytes < 2 ^ 63
    · have unlarge : ¬ 2 ^ 63 ≤ bytes := Nat.not_le.mpr small
      have compares : Compares quotaCase.account
          (quotaCase.usage + reservedTotal quotaCase.reserved quotaCase.key.1 + bytes) _ _ :=
        compares_reserve quotaCase.positive nonneg usageFits (by omega)
      have asked : (fun mode => quotaCase.decides mode (.fileSize bytes declared)) =
          fun mode => (reserveBlockBytesI64 mode quotaCase.account quotaCase.usage
            quotaCase.reserved quotaCase.key bytes).map fun _ => () := by
        funext mode
        rw [QuotaCase.decides, asI64_of_lt small]
      simp only [QuotaCase.Refuses, QuotaCase.InRange, unlarge, false_or, small, true_and,
        QuotaCase.charged]
      rw [asked, compares.answersLike_iff (fun quota _ _ => by omega) (fun quota _ _ => by omega)]
      simp only [Int.not_lt]
    · have negative : asI64 bytes ≤ 0 := by
        have fits := declared.2
        unfold asI64
        rw [Int.bmod_def]
        omega
      refine iff_of_false (not_answersLike (fun mode => ?_) (Or.inl (Nat.not_lt.mp small)))
        fun within => small within.1
      rw [QuotaCase.decides, reserveBlockBytesI64, if_pos negative]
      rfl
  | syncDelta delta parsed =>
    have compares : Compares quotaCase.account (quotaCase.usage + max delta 0) _ _ :=
      compares_sync nonneg
    simp only [QuotaCase.Refuses, QuotaCase.InRange]
    rw [show (fun mode => quotaCase.decides mode (.syncDelta delta parsed)) = fun mode =>
      checkSyncQuota mode quotaCase.account quotaCase.usage delta from rfl,
      compares.answersLike_iff (fun quota _ _ => by omega) (fun quota _ _ => by omega)]
    simp only [Int.not_le]

end Decisions

def oneByteUsed : QuotaCase Nat Nat where
  account := ⟨some 1000, 0, by decide, by decide⟩
  usage := 1
  usageFits := by decide
  reserved := .empty
  positive := Ledger.positive_empty
  key := (1, 7)

/-- A file of `2 ^ 63` bytes is taken by every build, and the largest delta by a release build,
although the quota is a thousand bytes. -/
theorem absurd_sizes_are_admitted :
    ¬ oneByteUsed.DecidesExactly (.fileSize (2 ^ 63) (by decide)) ∧
      oneByteUsed.decides .wraps (.fileSize (2 ^ 63) (by decide)) = .ok () ∧
      ¬ oneByteUsed.DecidesExactly (.syncDelta (2 ^ 63 - 1) (by decide)) ∧
      oneByteUsed.decides .wraps (.syncDelta (2 ^ 63 - 1) (by decide)) = .ok () ∧
      oneByteUsed.decides .panics (.syncDelta (2 ^ 63 - 1) (by decide)) = .error .overflow := by
  have large : oneByteUsed.decides .wraps (.fileSize (2 ^ 63) (by decide)) = .ok () := by
    decide +kernel
  have wrapped : oneByteUsed.decides .wraps (.syncDelta (2 ^ 63 - 1) (by decide)) = .ok () := by
    decide +kernel
  refine ⟨fun exact' => ?_, large, fun exact' => ?_, wrapped, by decide +kernel⟩
  · rcases exact' .wraps with ⟨refused, -⟩ | ⟨-, unrefused⟩
    · rw [large] at refused
      cases refused
    · exact unrefused (Or.inl (Nat.le_refl _))
  · rcases exact' .wraps with ⟨refused, -⟩ | ⟨-, unrefused⟩
    · rw [wrapped] at refused
      cases refused
    · exact unrefused ⟨1000, rfl, by decide⟩

end Nanofile
