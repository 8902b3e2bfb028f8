import Bonka.SessionRuns

/-!
# The bytes a session id is made of

`Session::new` hashes the origin, the application secret and the seed one after the other, with
nothing between them.  Where the origin ends is then a matter of the secret: bytes that continue
one origin can be read as the start of the other's secret and seed (`Absorbs`).  Two calls with
different origins or seeds hash different bytes exactly when neither absorbs the other
(`hashInput_ne_iff`).
-/

namespace Bonka

open Wire

/-- The bytes of a string. -/
def originBytes (origin : String) : Bytes := origin.toUTF8.data.toList

theorem originBytes_inj {left right : String} :
    originBytes left = originBytes right ↔ left = right := by
  constructor
  · intro same
    apply String.toByteArray_inj.mp
    exact ByteArray.ext (Array.toList_inj.mp same)
  · intro same
    rw [same]

/-- `origin'` continues `origin`, the secret is what the continuation and the secret after it
begin with, and `seed` is the rest of these and `seed'`. -/
def Absorbs (secret origin seed origin' seed' : Bytes) : Prop :=
  origin <+: origin' ∧ origin ≠ origin' ∧
    secret <+: origin'.drop origin.length ++ secret ∧
    seed = (origin'.drop origin.length ++ secret).drop secret.length ++ seed'

instance (secret origin seed origin' seed' : Bytes) :
    Decidable (Absorbs secret origin seed origin' seed') :=
  inferInstanceAs (Decidable (_ ∧ _ ∧ _))

variable {secret origin seed origin' seed' : Bytes}

/-- A secret and a seed split as some bytes, the same secret and another seed. -/
theorem secret_append_eq_iff (between : Bytes) :
    secret ++ seed = between ++ (secret ++ seed') ↔
      secret <+: between ++ secret ∧ seed = (between ++ secret).drop secret.length ++ seed' := by
  have long : secret.length ≤ (between ++ secret).length := by simp
  rw [← List.append_assoc]
  constructor
  · intro same
    have front : secret <+: between ++ secret :=
      List.prefix_of_prefix_length_le (same ▸ List.prefix_append secret seed)
        (List.prefix_append _ seed') long
    refine ⟨front, ?_⟩
    have rest := congrArg (List.drop secret.length) same
    rwa [List.drop_left, List.drop_append_of_le_length long] at rest
  · intro holds
    rcases holds with ⟨⟨rest, split⟩, rfl⟩
    rw [← split, List.drop_left, List.append_assoc]

/-- The second of two origins continues the first, maybe by nothing. -/
theorem append_between_eq_iff (between : Bytes) :
    secret ++ seed = between ++ (secret ++ seed') ↔
      (between = [] ∧ seed = seed') ∨
        Absorbs secret origin seed (origin ++ between) seed' := by
  rw [secret_append_eq_iff, Absorbs, List.drop_left]
  by_cases empty : between = []
  · subst empty
    simp
  · simp [empty, List.prefix_append]

/-- The ways in which two calls feed the hash the same bytes. -/
theorem append_eq_iff_absorbs :
    origin ++ secret ++ seed = origin' ++ secret ++ seed' ↔
      (origin = origin' ∧ seed = seed') ∨ Absorbs secret origin seed origin' seed' ∨
        Absorbs secret origin' seed' origin seed := by
  rw [List.append_assoc, List.append_assoc, List.append_eq_append_iff]
  constructor
  · intro holds
    rcases holds with ⟨between, rfl, same⟩ | ⟨between, rfl, same⟩
    · rcases (append_between_eq_iff between).mp same with ⟨rfl, rfl⟩ | absorbs
      · exact .inl ⟨by simp, rfl⟩
      · exact .inr (.inl absorbs)
    · rcases (append_between_eq_iff between).mp same with ⟨rfl, rfl⟩ | absorbs
      · exact .inl ⟨by simp, rfl⟩
      · exact .inr (.inr absorbs)
  · intro holds
    rcases holds with ⟨rfl, rfl⟩ | absorbs | absorbs
    · exact .inl ⟨[], by simp⟩
    · obtain ⟨between, rfl⟩ := absorbs.1
      exact .inl ⟨between, rfl, (append_between_eq_iff between).mpr (.inr absorbs)⟩
    · obtain ⟨between, rfl⟩ := absorbs.1
      exact .inr ⟨between, rfl, (append_between_eq_iff between).mpr (.inr absorbs)⟩

/-- **Two calls with different origins or seeds hash different bytes exactly when neither call
absorbs the other.** -/
theorem hashInput_ne_iff (source : IdSource) {origin origin' : String} {seed seed' : Bytes}
    (distinct : (origin, seed) ≠ (origin', seed')) :
    Session.hashInput source origin (some seed) ≠ Session.hashInput source origin' (some seed') ↔
      ¬ Absorbs source.appSecret (originBytes origin) seed (originBytes origin') seed' ∧
        ¬ Absorbs source.appSecret (originBytes origin') seed' (originBytes origin) seed := by
  have inputs := @append_eq_iff_absorbs source.appSecret (originBytes origin) seed
    (originBytes origin') seed'
  have apart : ¬ (originBytes origin = originBytes origin' ∧ seed = seed') := by
    intro same
    rcases same with ⟨sameOrigin, sameSeed⟩
    exact distinct (Prod.ext (originBytes_inj.mp sameOrigin) sameSeed)
  rw [or_iff_right apart] at inputs
  rw [← not_or]
  exact not_congr inputs

/-- Two seeds of one origin. -/
theorem hashInput_ne_iff_seeds :
    Session.hashInput ⟨fun bytes => UInt64.ofNat bytes.length, [49]⟩ "10.0.0.1:400"
        (some [115, 49]) ≠
      Session.hashInput ⟨fun bytes => UInt64.ofNat bytes.length, [49]⟩ "10.0.0.1:400"
        (some [115, 50]) :=
  (hashInput_ne_iff _ (by decide)).mpr (by decide)

/-- With the secret `1`, the seed `1X` of the origin `10.0.0.1:400` and the seed `X` of the origin
`10.0.0.1:4001` hash the same bytes, whatever the hash, and the second session replaces the
first. -/
theorem session_replaced_across_origins :
    (("10.0.0.1:400", [49, 88]) : String × Bytes) ≠ ("10.0.0.1:4001", [88]) ∧
      (∀ digest, Session.hashInput ⟨digest, [49]⟩ "10.0.0.1:400" (some [49, 88]) =
        Session.hashInput ⟨digest, [49]⟩ "10.0.0.1:4001" (some [88])) ∧
      (runOps ⟨fun bytes => UInt64.ofNat bytes.length, [49]⟩
        [.createSessionWithSeed "10.0.0.1:400" [49, 88] 0 0]).findSessionsByOrigin default
          "10.0.0.1:400" ≠ [] ∧
      (runOps ⟨fun bytes => UInt64.ofNat bytes.length, [49]⟩
        [.createSessionWithSeed "10.0.0.1:400" [49, 88] 0 0,
          .createSessionWithSeed "10.0.0.1:4001" [88] 1 1]).findSessionsByOrigin default
          "10.0.0.1:400" = [] :=
  ⟨by decide, fun _ => rfl, by decide, by decide⟩

end Bonka
