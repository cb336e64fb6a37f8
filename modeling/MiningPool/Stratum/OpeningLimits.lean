import MiningPool.Stratum.ChannelTarget
import MiningPool.Stratum.Notices
import MiningPool.Stratum.ShareVerdict

/-!
# The limits of an open request

A client asks for a channel with a largest target and a smallest extranonce. The handler reads
neither: the extranonce has four bytes, and the target is the easier of the network's and
that of the declared hash rate.

## Main result

`opening_within_limits_iff`: the limits for which that is good enough.
-/

namespace MiningPool

variable {X : Externals} {dbTx : Bool} {c c' : Connection}

/-- The only channel that the answer to a request gives out. -/
private theorem answer_eq {msg : OpenExtendedMiningChannel} {template : RawTemplate} {now : Int}
    {socket : List Bool} {m : OpenExtendedMiningChannelSuccess}
    (stepped : Connection.Stepped X dbTx c
      (.frame (.openExtendedMiningChannel (some msg)) template now socket) c')
    (answered : .wire (.openExtendedMiningChannelSuccess m) ∈ c.added c') :
    m = openSuccess X c.state msg template := by
  cases stepped with
  | unanswered _ effects =>
    rw [Connection.added_eq (effects.trans (List.append_nil _).symm)] at answered
    cases answered
  | unserved added _ effects all =>
    rw [Connection.added_eq effects] at answered
    rcases List.mem_cons.mp answered with same | later
    · cases same
      rfl
    · -- what comes later announces a job or greets
      rcases all _ later with job | ⟨address, greeting⟩
      · exact absurd rfl (IsJob.not_success job m)
      · cases greeting
  | opened _ _ effects =>
    rw [Connection.added_eq effects] at answered
    simp only [List.mem_append, List.mem_cons, List.not_mem_nil, or_false] at answered
    rcases answered with (same | job | prevHash) | greeting
    · cases same
      rfl
    · cases job
    · cases prevHash
    · split at greeting
      · cases List.mem_singleton.mp greeting
      · cases greeting
  | unhandled _ _ notOpen => exact absurd rfl (notOpen msg)

/-- Of the rates only infinity has no exact target: its division leaves nothing. -/
private theorem rate_target_le_iff (nominalHashRate : UInt32) (bound : Nat) :
    Bytes.ofBE (hashrateToTargetBe nominalHashRate).data ≤ bound ↔
      nominalHashRate = f32Infinity ∨
        0xFFFF * 2 ^ 208 / hashrateDifficulty nominalHashRate ≤ bound := by
  obtain ⟨cast, infinite⟩ := hashrateDifficulty_cast nominalHashRate
  rcases cast with ⟨positive, finite⟩ | saturated
  · have different : nominalHashRate ≠ f32Infinity := by
      intro same
      have := infinite.mpr same
      omega
    rw [ofBE_hashrateToTargetBe, (divisionTarget_finite positive finite).2]
    exact (or_iff_right different).symm
  · have infinity := infinite.mp saturated
    subst infinity
    have nothing : Bytes.ofBE (hashrateToTargetBe f32Infinity).data = 0 := by decide +kernel
    rw [nothing]
    exact iff_of_true (Nat.zero_le bound) (.inl rfl)

/-- Every answer to a request keeps the limits of the client if and only if the client wants at
most four bytes of extranonce, and its largest target is at least the network's and at
least that of its rate. An infinite rate has no target of its own. -/
theorem opening_within_limits_iff {msg : OpenExtendedMiningChannel} {template : RawTemplate}
    {now : Int} {socket : List Bool} {m : OpenExtendedMiningChannelSuccess}
    (stepped : c.step X dbTx (.frame (.openExtendedMiningChannel (some msg)) template now socket) =
      some c')
    (answered : .wire (.openExtendedMiningChannelSuccess m) ∈ c.added c') :
    msg.minExtranonceSize ≤ m.extranonceSize ∧
        Bytes.ofLE m.target.data ≤ Bytes.ofLE msg.maxTarget.data ↔
      msg.minExtranonceSize ≤ 4 ∧
        networkTarget template.setNewPrevHash.nBits ≤ Bytes.ofLE msg.maxTarget.data ∧
        (msg.nominalHashRate = f32Infinity ∨
          0xFFFF * 2 ^ 208 / hashrateDifficulty msg.nominalHashRate ≤
            Bytes.ofLE msg.maxTarget.data) := by
  obtain rfl := answer_eq (Connection.step_cases stepped) answered
  have target : Bytes.ofLE (openSuccess X c.state msg template).target.data =
      max (networkTarget template.setNewPrevHash.nBits)
        (Bytes.ofBE (hashrateToTargetBe msg.nominalHashRate).data) := by
    rw [← ofBE_openingTarget]
    exact ofLE_targetBeToSv2 _
  rw [target, max_le_iff, rate_target_le_iff]
  rfl

/-- A request of the test network with any target for its largest. -/
def generousOpen : OpenExtendedMiningChannel :=
  { regtestOpen with maxTarget := ⟨List.replicate 32 0xff, by simp⟩ }

/-- Four bytes of extranonce and the easiest target are within its limits. -/
theorem opening_within_limits_generous :
    ∃ c' m, (Connection.new regtestAddress).step regtestExternals true
        (.frame (.openExtendedMiningChannel (some generousOpen)) regtestTemplate 1700000000 []) =
          some c' ∧
      .wire (.openExtendedMiningChannelSuccess m) ∈ (Connection.new regtestAddress).added c' ∧
      generousOpen.minExtranonceSize ≤ m.extranonceSize ∧
      Bytes.ofLE m.target.data ≤ Bytes.ofLE generousOpen.maxTarget.data := by
  have handled : ((Connection.new regtestAddress).step regtestExternals true
      (.frame (.openExtendedMiningChannel (some generousOpen)) regtestTemplate 1700000000 [])).any
        (fun c' => .wire (.openExtendedMiningChannelSuccess (openSuccess regtestExternals
          (ConnectionState.new regtestAddress) generousOpen regtestTemplate)) ∈
            (Connection.new regtestAddress).added c') := by
    decide +kernel
  obtain ⟨c', stepped, answered⟩ := Execution.exists_of_any handled
  refine ⟨c', _, stepped, answered, (opening_within_limits_iff stepped answered).mpr ?_⟩
  exact ⟨by decide, by decide +kernel, .inr (by decide +kernel)⟩

/-- A client that wants eight bytes of extranonce gets four. -/
theorem extranonce_shorter_than_requested :
    ¬∀ c c' msg template now socket m,
      c.step regtestExternals true
        (.frame (.openExtendedMiningChannel (some msg)) template now socket) = some c' →
      .wire (.openExtendedMiningChannelSuccess m) ∈ Connection.added c c' →
      msg.minExtranonceSize ≤ m.extranonceSize ∧
        Bytes.ofLE m.target.data ≤ Bytes.ofLE msg.maxTarget.data := by
  intro within_
  let msg : OpenExtendedMiningChannel := { generousOpen with minExtranonceSize := 8 }
  have handled : ((Connection.new regtestAddress).step regtestExternals true
      (.frame (.openExtendedMiningChannel (some msg)) regtestTemplate 1700000000 [])).any
        (fun c' => .wire (.openExtendedMiningChannelSuccess (openSuccess regtestExternals
          (ConnectionState.new regtestAddress) msg regtestTemplate)) ∈
            (Connection.new regtestAddress).added c') := by
    decide +kernel
  obtain ⟨c', stepped, answered⟩ := Execution.exists_of_any handled
  have size := (within_ (Connection.new regtestAddress) c' msg regtestTemplate 1700000000 [] _
    stepped answered).1
  exact absurd size (by decide)

end MiningPool
