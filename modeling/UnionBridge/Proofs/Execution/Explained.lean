import UnionBridge.Proofs.Execution.FirstFit
import UnionBridge.Proofs.Execution.Loaded

/-! Conversions in a world where what they mention means what it should. -/
namespace UnionBridge

open UnionBridge.Action

variable {s : Scope} {w : World} {home depth : Nat} {conv conv' : Conversion} {as : List Attempt} {σ : Sense}
  {γ : String → ClassRef} {x : Value}

namespace Conversion

/-- All candidates of all arms. -/
def attempts (conv : Conversion) : List Attempt := conv.arms.flatMap (·.body.attempts)

/-- What a conversion mentions, apart from its container and what every module has. -/
def paths (conv : Conversion) : List DottedName :=
  conv.source :: .ofName conv.dest :: conv.attempts.flatMap fun a => a.steps.map (·.type)

theorem mem_attempts {arm : Arm} (harm : arm ∈ conv.arms) {a : Attempt} (ha : a ∈ arm.body.attempts) :
    a ∈ conv.attempts :=
  List.mem_flatMap.mpr ⟨arm, harm, ha⟩

end Conversion

/-- What a conversion mentions, apart from its container, means what it should in a module. -/
structure World.Knows (w : World) (home : Nat) (conv : Conversion) (σ : Sense) (γ : String → ClassRef) : Prop where
  registry : w.globalPath home (.ofName "_registry") = .ok (.registry σ.registry)
  tests : w.global home "isinstance" = .ok (.function (.builtin .classTest))
  cases : ∀ arm ∈ conv.arms, w.globalPath home (conv.source.child arm.case) = .ok (.cls (γ arm.case))
  types : ∀ a ∈ conv.attempts, ∀ f ∈ a.steps, w.globalPath home f.type = .ok (σ.type f.type)
  variants : ∀ a ∈ conv.attempts, w.globalPath home a.constructor = .ok (.cls (.declared (σ.variant a.case)))
  rejection : w.globalPath home ⟨"_rt", ["ConversionFailed"]⟩ = .ok (.cls (.builtin .conversionFailed))
  exhaustion : w.globalPath home ⟨"_rt", ["ExhaustedCandidatesError"]⟩ = .ok (.cls (.builtin .exhausted))

/-- Besides, the class of each variant makes values with its fields. -/
structure World.Explains (w : World) (home : Nat) (conv : Conversion) (σ : Sense) (γ : String → ClassRef) : Prop
    extends w.Knows home conv σ γ where
  makes : ∀ a ∈ conv.attempts, w.Makes (σ.variant a.case) (a.steps.map (·.attr))

theorem Scope.Follows.mono {more : List Attempt} (h : s.Follows conv more σ) (hsub : ∀ a ∈ as, a ∈ more) :
    s.Follows conv as σ :=
  ⟨h.own, h.calls, h.registry, fun a ha => h.types a (hsub a ha), h.container, fun a ha => h.variants a (hsub a ha),
    fun a ha => h.makes a (hsub a ha), h.rejection, h.exhaustion⟩

namespace World

section Scopes

variable (hshown : ∀ d ∈ conv.paths, d.head ∉ conv'.ownNames)
  (hcommon : ∀ name ∈ ["_registry", "_rt"], name ∉ conv'.ownNames)
include hshown hcommon

theorem Knows.tries (h : w.Knows home conv σ γ) (hdest : ∀ a ∈ conv.attempts, a.dest = conv.dest)
    (hk : Option.Rel (w.frame home conv'.ownNames depth).Stands conv'.container σ.container) :
    (w.frame home conv'.ownNames depth).Tries conv' conv.attempts σ where
  own := rfl
  calls _ _ := rfl
  registry _ := (Scope.path_of_foreign (hcommon "_registry" (by simp))).trans h.registry
  types a ha f hf _ := by
    refine (Scope.path_of_foreign (hshown f.type ?_)).trans (h.types a ha f hf)
    simp only [Conversion.paths, List.mem_cons, List.mem_flatMap, List.mem_map]
    exact .inr (.inr ⟨a, ha, f, hf, rfl⟩)
  container := hk
  variants a ha _ := by
    refine (Scope.path_of_foreign ?_).trans (h.variants a ha)
    rw [Attempt.constructor, hdest a ha]
    exact hshown (.ofName conv.dest) (by simp [Conversion.paths])
  rejection _ := (Scope.path_of_foreign (hcommon "_rt" (by simp))).trans h.rejection
  exhaustion _ := (Scope.path_of_foreign (hcommon "_rt" (by simp))).trans h.exhaustion

theorem Explains.follows (h : w.Explains home conv σ γ) (hdest : ∀ a ∈ conv.attempts, a.dest = conv.dest)
    (hk : conv'.container = none) (hσ : σ.container = none) :
    (w.frame home conv'.ownNames depth).Follows conv' conv.attempts σ :=
  have htries : (w.frame home conv'.ownNames depth).Tries conv' conv.attempts σ :=
    h.toKnows.tries hshown hcommon hdest (by rw [hk, hσ]; exact .none)
  ⟨htries.own, htries.calls, htries.registry, htries.types, htries.container, htries.variants, h.makes,
    htries.rejection, htries.exhaustion⟩

end Scopes

/-- Testing for a case in a function comes to what the test of the language says. -/
theorem Knows.eval_isInstance (h : w.Knows home conv σ γ) {arm : Arm} (harm : arm ∈ conv.arms)
    (hsource : conv'.source = conv.source) (hshown : conv.source.head ∉ conv'.ownNames)
    (hcommon : "isinstance" ∉ conv'.ownNames) :
    eval ((w.frame home conv'.ownNames depth).isInstance Conversion.parameter (conv'.source.child arm.case))
      ⟨[(Conversion.parameter, x)]⟩ = (.ok (w.isInstance x (γ arm.case)), ⟨[(Conversion.parameter, x)]⟩) := by
  refine Scope.eval_isInstance ((Scope.name_of_foreign hcommon).trans h.tests) rfl ?_ fun _ => rfl
  rw [hsource]
  exact (Scope.path_of_foreign hshown).trans (h.cases arm harm)

end World

end UnionBridge
