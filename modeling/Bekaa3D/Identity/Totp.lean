import Mathlib.Data.List.Induction
import Bekaa3D.Identity.Tokens

/-!
# Identity.Totp — time-based codes and their replay

`attempt`: a submitted code against a credential, as `VerifyMfa` checks it and, if it accepts it, records its step.

* `verifyCodeStep_spec`: the scan of the window returns the greatest step whose code matches.
* `totp_exact`: which submissions are accepted, with which step, and that no later one is for a step up to it.
-/

namespace Bekaa3D.Identity

variable (env : Env)

/-- `verify_code_step`, then `is_totp_step_replayed`: the step that is accepted, and the credential that records
it. -/
def attempt (secret : String) (c : MfaCredential) (code : String) (now : Instant) : Option (ℤ × MfaCredential) :=
  match verifyCodeStep env secret code now with
  | none => none
  | some step => if c.isTotpStepReplayed step then none else some (step, c.recordTotpStep step now)

/-- The submitted code is that of the step, and the window of the instant contains the step. -/
structure Matches (secret code : String) (now : Instant) (step : ℤ) : Prop where
  window : currentStep now - 1 ≤ step ∧ step ≤ currentStep now + 1
  code : env.totpAt secret step = Platform.strip code

/-- No step is spent yet, or only earlier ones. -/
def Unspent (c : MfaCredential) (step : ℤ) : Prop := ∀ last, c.lastTotpStep = some last → last < step

/-- The steps that a credential accepts in turn, of submissions with their secrets and instants. -/
def accepted : MfaCredential → List (String × String × Instant) → List ℤ
  | _, [] => []
  | c, (secret, code, now) :: submissions =>
    match attempt env secret c code now with
    | none => accepted c submissions
    | some (step, c') => step :: accepted c' submissions

section Scan

variable {env} {secret code : String} {now : Instant} {step : ℤ} {c c' : MfaCredential}

/-- A scan without an early exit of increasing steps ends with the greatest match. -/
theorem scan_spec {p : ℤ → Prop} [DecidablePred p] {l : List ℤ} (hl : l.Pairwise (· < ·)) :
    match l.foldl (fun matched step => if p step then some step else matched) none with
    | some a => a ∈ l ∧ p a ∧ ∀ b ∈ l, p b → b ≤ a
    | none => ∀ b ∈ l, ¬p b := by
  induction l using List.reverseRecOn with
  | nil => simp
  | append_singleton l a ih =>
    rw [List.pairwise_append] at hl
    obtain ⟨hl, -, hlast⟩ := hl
    rw [List.foldl_append, List.foldl_cons, List.foldl_nil]
    split
    · rename_i b hb
      by_cases hp : p a
      · rw [if_pos hp] at hb
        cases hb
        refine ⟨by simp, hp, fun b hb _ => ?_⟩
        rcases List.mem_append.mp hb with hb | hb
        · exact le_of_lt (hlast b hb a (by simp))
        · exact le_of_eq (List.mem_singleton.mp hb)
      · rw [if_neg hp] at hb
        have ih := ih hl
        rw [hb] at ih
        obtain ⟨hmem, hpb, hmax⟩ := ih
        refine ⟨List.mem_append_left _ hmem, hpb, fun b' hb' hp' => ?_⟩
        rcases List.mem_append.mp hb' with hb' | hb'
        · exact hmax b' hb' hp'
        · rw [List.mem_singleton.mp hb'] at hp'
          exact absurd hp' hp
    · rename_i hnone
      by_cases hp : p a
      · rw [if_pos hp] at hnone
        cases hnone
      · rw [if_neg hp] at hnone
        have ih := ih hl
        rw [hnone] at ih
        intro b hb
        rcases List.mem_append.mp hb with hb | hb
        · exact ih b hb
        · rwa [List.mem_singleton.mp hb]

theorem mem_window : step ∈ window now ↔ currentStep now - 1 ≤ step ∧ step ≤ currentStep now + 1 := by
  unfold window validWindow
  simp only [List.mem_cons, List.not_mem_nil, or_false]
  omega

theorem window_sorted (now : Instant) : (window now).Pairwise (· < ·) := by
  unfold window validWindow
  simp only [List.pairwise_cons, List.mem_cons, List.not_mem_nil, or_false, forall_eq_or_imp, forall_eq]
  refine ⟨by omega, by omega, fun _ h => h.elim, .nil⟩

/-- The step that a code verifies for: the greatest that matches. -/
theorem verifyCodeStep_spec (env : Env) (secret code : String) (now : Instant) :
    match verifyCodeStep env secret code now with
    | some step => isAscii (Platform.strip code) = true ∧ Matches env secret code now step ∧
        ∀ step', Matches env secret code now step' → step' ≤ step
    | none => isAscii (Platform.strip code) = true → ∀ step, ¬Matches env secret code now step := by
  have hspec := scan_spec (p := fun step => env.totpAt secret step = Platform.strip code) (window_sorted now)
  unfold verifyCodeStep
  dsimp only
  split
  · rename_i step hs
    split at hs
    · rename_i ha
      rw [hs] at hspec
      obtain ⟨hmem, hp, hmax⟩ := hspec
      exact ⟨ha, ⟨mem_window.mp hmem, hp⟩, fun step' h => hmax step' (mem_window.mpr h.window) h.code⟩
    · cases hs
  · rename_i hs
    intro ha step h
    rw [if_pos ha] at hs
    rw [hs] at hspec
    exact hspec step (mem_window.mpr h.window) h.code

theorem isTotpStepReplayed_iff : c.isTotpStepReplayed step = false ↔ Unspent c step := by
  unfold MfaCredential.isTotpStepReplayed Unspent
  cases c.lastTotpStep <;> simp

theorem recordTotpStep_last (hu : Unspent c step) (at_ : Instant) : (c.recordTotpStep step at_).lastTotpStep = some step := by
  unfold MfaCredential.recordTotpStep MfaCredential.markUsed
  cases hl : c.lastTotpStep with
  | none => rfl
  | some last => exact congrArg some (max_eq_right (le_of_lt (hu last hl)))

/-- What an accepted submission is. -/
theorem attempt_eq_some : attempt env secret c code now = some (step, c') ↔
    isAscii (Platform.strip code) = true ∧ Matches env secret code now step ∧ Unspent c step ∧
      (∀ step', Matches env secret code now step' → step' ≤ step) ∧ c' = c.recordTotpStep step now := by
  have hspec := verifyCodeStep_spec env secret code now
  unfold attempt
  cases hv : verifyCodeStep env secret code now with
  | none =>
    rw [hv] at hspec
    refine ⟨fun h => (Option.some_ne_none _ h.symm).elim, ?_⟩
    rintro ⟨ha, hm, -⟩
    exact absurd hm (hspec ha step)
  | some s =>
    rw [hv] at hspec
    obtain ⟨ha, hm, hmax⟩ := hspec
    dsimp only
    constructor
    · intro h
      split at h
      · cases h
      · rename_i hr
        cases h
        exact ⟨ha, hm, isTotpStepReplayed_iff.mp (by simpa using hr), hmax, rfl⟩
    · rintro ⟨-, hm', hu, hmax', rfl⟩
      obtain rfl : s = step := le_antisymm (hmax' s hm) (hmax step hm')
      rw [isTotpStepReplayed_iff.mpr hu]
      rfl

/-- A submission is accepted exactly if it matches an unspent step. -/
theorem attempt_isSome : (attempt env secret c code now).isSome = true ↔
    isAscii (Platform.strip code) = true ∧ ∃ step, Matches env secret code now step ∧ Unspent c step := by
  constructor
  · intro h
    obtain ⟨⟨step, c'⟩, h⟩ := Option.isSome_iff_exists.mp h
    obtain ⟨ha, hm, hu, -⟩ := attempt_eq_some.mp h
    exact ⟨ha, step, hm, hu⟩
  · rintro ⟨ha, step, hm, hu⟩
    have hspec := verifyCodeStep_spec env secret code now
    cases hv : verifyCodeStep env secret code now with
    | none =>
      rw [hv] at hspec
      exact absurd hm (hspec ha step)
    | some s =>
      rw [hv] at hspec
      obtain ⟨-, hm', hmax⟩ := hspec
      -- the greatest match is unspent too
      have hu' : Unspent c s := fun last hl => lt_of_lt_of_le (hu last hl) (hmax step hm)
      exact Option.isSome_iff_exists.mpr ⟨_, attempt_eq_some.mpr ⟨ha, hm', hu', hmax, rfl⟩⟩

/-- Every step that is accepted is unspent at first. -/
theorem unspent_accepted {submissions : List (String × String × Instant)} (hm : step ∈ accepted env c submissions) :
    Unspent c step := by
  induction submissions generalizing c with
  | nil => cases hm
  | cons submission submissions ih =>
    obtain ⟨secret, code, now⟩ := submission
    unfold accepted at hm
    split at hm
    · exact ih hm
    · rename_i s c' ha
      obtain ⟨-, -, hu, -, rfl⟩ := attempt_eq_some.mp ha
      rcases List.mem_cons.mp hm with rfl | hm
      · exact hu
      · intro last hl
        exact lt_trans (hu last hl) (ih hm s (recordTotpStep_last hu now))

/-- The accepted steps increase. -/
theorem accepted_increasing (env : Env) (c : MfaCredential) (submissions : List (String × String × Instant)) :
    (accepted env c submissions).Pairwise (· < ·) := by
  induction submissions generalizing c with
  | nil => exact .nil
  | cons submission submissions ih =>
    obtain ⟨secret, code, now⟩ := submission
    unfold accepted
    split
    · exact ih c
    · rename_i s c' ha
      obtain ⟨-, -, hu, -, rfl⟩ := attempt_eq_some.mp ha
      exact .cons (fun step hm => unspent_accepted hm s (recordTotpStep_last hu now)) (ih _)

variable (env) in
/-- Which submissions are accepted, and what accepting one records. -/
structure TotpExact : Prop where
  accepts : ∀ secret c code now, (attempt env secret c code now).isSome = true ↔
    isAscii (Platform.strip code) = true ∧ ∃ step, Matches env secret code now step ∧ Unspent c step
  /-- The codes are ASCII themselves. -/
  digits : ∀ secret, (∀ step, isAscii (env.totpAt secret step) = true) → ∀ c code now,
    (attempt env secret c code now).isSome = true ↔ ∃ step, Matches env secret code now step ∧ Unspent c step
  /-- The greatest unspent step that matches is recorded. -/
  records : ∀ secret c code now step c', attempt env secret c code now = some (step, c') →
    Matches env secret code now step ∧ Unspent c step ∧ c'.lastTotpStep = some step ∧
      ∀ step', Matches env secret code now step' → Unspent c step' → step' ≤ step
  /-- After it, only later ones are accepted. -/
  spent : ∀ secret c code now step c', attempt env secret c code now = some (step, c') →
    ∀ submissions, ∀ step' ∈ accepted env c' submissions, step < step'
  increasing : ∀ c submissions, (accepted env c submissions).Pairwise (· < ·)

/-- **TOTP acceptance with replay protection is exact.** -/
theorem totp_exact : TotpExact env where
  accepts _ _ _ _ := attempt_isSome
  digits secret hd c code now := by
    rw [attempt_isSome]
    refine and_iff_right_of_imp ?_
    rintro ⟨step, hm, -⟩
    rw [← hm.code]
    exact hd step
  records secret c code now step c' h := by
    obtain ⟨-, hm, hu, hmax, rfl⟩ := attempt_eq_some.mp h
    exact ⟨hm, hu, recordTotpStep_last hu now, fun step' hm' _ => hmax step' hm'⟩
  spent secret c code now step c' h submissions step' hm := by
    obtain ⟨-, -, hu, -, rfl⟩ := attempt_eq_some.mp h
    exact unspent_accepted hm step (recordTotpStep_last hu now)
  increasing c submissions := accepted_increasing env c submissions

end Scan

end Bekaa3D.Identity
