import MiningPool.Pool.Runs

/-!
# Block solutions

A solution on its way from the share that solves a block to `submit_solution`: which
header it stands for, which block client gets it, and whether it gets there at all.
-/

namespace MiningPool

open Bitcoin

variable {X : Externals} {pool : String} {p p' p₀ : Pool} {a : Action} {actions : List Action}
  {block : BlockTemplate}

/-! ### What a solution stands for -/

/-- The header that the node makes of a solution on the block of a client. -/
def assembledHeader (X : Externals) (block : BlockTemplate) (data : SubmitSolutionData) :
    Option Header := do
  let coinbase ← deserialize data.coinbaseTx
  let merklePath ← block.merklePath.mapM (Bytes.ofList? 32)
  return {
    version := data.version
    prevBlockhash := block.header.prevBlockhash
    merkleRoot := foldBranch X.sha256d (computeTxid X.sha256d coinbase) merklePath
    time := data.headerTimestamp
    bits := block.header.bits
    nonce := data.headerNonce }

/-- A solution is for the template of the `k`-th block client, and on that client the node
makes of it the header that the share handler checked. -/
structure Pool.SolvedOn (X : Externals) (p : Pool) (k : Nat) (data : SubmitSolutionData)
    (header : Header) (raw : RawTemplate) (block : BlockTemplate) : Prop where
  published : p.published[k]? = some raw
  client : p.clients[k]? = some block
  templateId : raw.newTemplate.templateId = data.templateId
  assembled : assembledHeader X block data = some header
  solves : workHash X header ≤ networkTarget raw.setNewPrevHash.nBits

/-- The job whose block a share solves, if it is accepted and solves one. -/
def solvedJob (X : Externals) (s : ConnectionState) (share : SubmitSharesExtended) :
    Option JobInfo := do
  let channel ← s.channels.get? share.channelId
  let job ← channel.currentJob
  if job.jobId ≠ share.jobId then none
  else
    let coinbaseTx ← deserialize (shareCoinbase channel job share.extranonce.val)
    let header := shareHeader X job coinbaseTx share
    if workHash X header ≤ channel.shareTarget ∧ workHash X header ≤ networkTarget job.nbits then
      some job
    else none

def Effect.isSolution : Effect → Bool
  | .solution _ _ => true
  | _ => false

theorem Effect.isSolution_iff {e : Effect} :
    e.isSolution = true ↔ ∃ data header, e = .solution data header := by
  cases e <;> simp [isSolution]

/-- A solution among a share's effects is for a job that the share solves. -/
private theorem solution_mem_shareEffects {s : ConnectionState} {share : SubmitSharesExtended}
    {dbTx : Bool} {data : SubmitSolutionData} {header : Header}
    (member : .solution data header ∈ shareEffects X s share dbTx) :
    ∃ channel job coinbaseTx, s.channels.get? share.channelId = some channel ∧
      channel.currentJob = some job ∧ solvedJob X s share = some job ∧
      deserialize (shareCoinbase channel job share.extranonce.val) = some coinbaseTx ∧
      data = solutionOf job share (shareCoinbase channel job share.extranonce.val) ∧
      header = shareHeader X job coinbaseTx share ∧
      workHash X header ≤ networkTarget job.nbits := by
  rcases shareEffects_cases member with ⟨_, eq⟩ |
    ⟨channel, job, coinbaseTx, found, current, quoted, parsed, met, eq | eq | ⟨eq, solves⟩⟩
  · cases eq
  · cases eq
  · cases eq
  · cases eq
    refine ⟨channel, job, coinbaseTx, found, current, ?_, parsed, rfl, rfl, solves⟩
    simp [solvedJob, found, current, quoted, parsed, met, solves]

private theorem solves_of_job (published : p.Published) {raw : RawTemplate} {channel : ChannelInfo}
    {job : JobInfo} {coinbaseTx : Transaction} {share : SubmitSharesExtended}
    (member : raw ∈ p.published) (sourced : job.Of raw)
    (parsed : deserialize (shareCoinbase channel job share.extranonce.val) = some coinbaseTx)
    (solves : workHash X (shareHeader X job coinbaseTx share) ≤ networkTarget job.nbits) :
    ∃ block, p.SolvedOn X job.templateId
      (solutionOf job share (shareCoinbase channel job share.extranonce.val))
      (shareHeader X job coinbaseTx share) raw block := by
  obtain ⟨k, at_k⟩ := List.mem_iff_getElem?.mp member
  obtain ⟨block, client, built⟩ := published.built k raw at_k
  obtain ⟨_, _, templateId, _, _, _, _, _, _, _, _, path, prevHash⟩ := buildRawTemplate_ok built
  obtain rfl : job.templateId = k := sourced.templateId.trans templateId
  refine ⟨block, ⟨at_k, client, sourced.templateId.symm, ?_, ?_⟩⟩
  · simp only [assembledHeader, solutionOf, parsed, path, Option.bind_eq_bind, Option.bind_some,
      shareHeader, sourced.merklePath, sourced.prevHash, sourced.nbits, prevHash]
    rfl
  · rw [← sourced.nbits]
    exact solves

/-- Every solution that a connection ever had solves the block of its own template. -/
theorem Pool.run_solves (started : Pool.start block = .ok p₀)
    (ran : Pool.run X pool p₀ actions = some p) {c n : Nat} {pc : PoolConnection}
    {data : SubmitSolutionData} {header : Header} (found : p.connections[c]? = some pc)
    (effect : pc.conn.effects[n]? = some (.solution data header)) :
    ∃ raw block, p.SolvedOn X data.templateId data header raw block := by
  obtain ⟨before, a, q, q', pc₀, pc', i, origin⟩ := run_origin started ran found effect
  obtain ⟨after, split⟩ := origin.split
  obtain ⟨inputs, served⟩ := (run_serves started origin.reached).present c pc₀ origin.found
  have later := published_subset split ran origin.reached
  have effect := origin.effect
  rcases (Connection.step_cases origin.handled).effect_cases origin.new effect with ⟨_, eq⟩ |
    ⟨_, _, eq⟩ | ⟨share, template, now, socket, rfl, added, expected, effects⟩
  · cases eq
  · cases eq
  rw [effects, List.getElem?_append_right origin.new] at effect
  obtain ⟨channel, job, coinbaseTx, found, current, _, parsed, rfl, rfl, solves⟩ :=
    solution_mem_shareEffects (expected.subset (List.mem_of_getElem? effect))
  obtain ⟨j, member, sourced⟩ := Connection.run_jobs served.ran found current
  obtain ⟨block, solved⟩ := solves_of_job (run_published started ran)
    (later (served.published j member)) sourced parsed solves
  exact ⟨j.template, block, solved⟩

/-! ### The queue -/

/-- Every solution that went into the queue and was not lost from it, in order. -/
def Pool.sent (p : Pool) : List Solution := p.submitted.map Submission.solution ++ p.queue

/-- The action sends a solution to the IPC loop. -/
def Pool.sendsSolution (p : Pool) : Action → Bool
  | .perform c => ((p.connections[c]?).bind PoolConnection.next).any Effect.isSolution
  | _ => false

/-- What a step does to the solutions in and out of the queue. -/
theorem Pool.Stepped.sent_cases (stepped : Stepped X pool p a p') :
    (p'.sent = p.sent ∧ (p.sendsSolution a → p.phase = .stopped)) ∨
    (p.loopFails a ∧ p' = p.stop) ∨
    ∃ c pc data header, a = .perform c ∧ p.connections[c]? = some pc ∧
      pc.next = some (.solution data header) ∧
      p'.connections[c]? = some { pc with performed := pc.performed + 1 } ∧
      p'.sent = p.sent ++ [⟨c, pc.performed, data, header⟩] := by
  cases stepped with
  | sent found next =>
    refine .inr (.inr ⟨_, _, _, _, rfl, found, next, ?_, ?_⟩)
    · exact List.getElem?_set_self (List.getElem?_eq_some_iff.mp found).1
    · simp [Pool.sent, setConnection]
  | lost _ _ stopped => exact .inl ⟨rfl, fun _ => stopped⟩
  | performed found next other =>
    refine .inl ⟨rfl, fun sends => ?_⟩
    rw [sendsSolution, found, Option.bind_some, next, Option.any_some,
      Effect.isSolution_iff] at sends
    obtain ⟨data, header, eq⟩ := sends
    exact absurd eq (other data header)
  | stops fails => exact .inr (.inl ⟨fails, rfl⟩)
  -- from the head of the queue to the end of what was submitted
  | received _ first =>
    refine .inl ⟨?_, fun sends => absurd sends Bool.false_ne_true⟩
    simp [Pool.sent, first]
  | _ => exact .inl ⟨rfl, fun sends => absurd sends Bool.false_ne_true⟩

/-- Every solution in or out of the queue is an effect that left its connection. -/
def Pool.Traced (p : Pool) : Prop :=
  ∀ s ∈ p.sent, ∃ pc, p.connections[s.connection]? = some pc ∧ s.index < pc.performed ∧
    pc.conn.effects[s.index]? = some (.solution s.data s.header)

theorem Pool.Stepped.traced (stepped : Stepped X pool p a p') (holds : p.Traced) : p'.Traced := by
  -- what left a connection before is still among its effects
  have kept {s : Solution} (member : s ∈ p.sent) : ∃ pc, p'.connections[s.connection]? = some pc ∧
      s.index < pc.performed ∧ pc.conn.effects[s.index]? = some (.solution s.data s.header) := by
    obtain ⟨pc, found, left, effect⟩ := holds s member
    obtain ⟨pc', found', touched⟩ := stepped.stays found
    obtain ⟨added, effects⟩ := touched.effects
    refine ⟨pc', found', left.trans_le touched.performed_mono, ?_⟩
    rw [effects, List.getElem?_append_left (List.getElem?_eq_some_iff.mp effect).1, effect]
  intro s member
  rcases stepped.sent_cases with ⟨same, _⟩ | ⟨_, rfl⟩ |
    ⟨c, pc, data, header, _, _, next, found', same⟩
  · exact kept (same ▸ member)
  · rw [Pool.sent, stop, List.append_nil] at member
    -- the loop returned, and only what was submitted counts
    exact kept (List.mem_append_left _ member)
  · rw [same] at member
    rcases List.mem_append.mp member with member | member
    · exact kept member
    · obtain rfl := List.mem_singleton.mp member
      -- the solution that was just sent
      exact ⟨_, found', Nat.lt_succ_self _, next⟩

theorem Pool.start_traced (started : Pool.start block = .ok p) : p.Traced := by
  obtain ⟨_, queue, submitted⟩ := start_connections started
  intro s member
  rw [Pool.sent, queue, submitted] at member
  cases member

theorem Pool.run_traced (started : Pool.start block = .ok p₀)
    (ran : Pool.run X pool p₀ actions = some p) : p.Traced :=
  Execution.run_invariant Pool.Traced (fun _ _ _ holds stepped =>
    (step_cases stepped).traced holds) (start_traced started) ran

/-! ### Solutions and templates -/

/-- What has not left a connection yet. -/
def PoolConnection.unsent (pc : PoolConnection) : List Effect := pc.conn.effects.drop pc.performed

/-- The action brings a new block client. -/
def Action.isWaitNext : Action → Bool
  | .waitNext _ => true
  | _ => false

/-- The job whose block the share in an action solves. -/
def Pool.solvedBy (X : Externals) (p : Pool) : Action → Option JobInfo
  | .frame c (.submitSharesExtended (some share)) _ _ =>
    (p.connections[c]?).bind fun pc => solvedJob X pc.conn.state share
  | _ => none

/-- A new block client comes only when no solution is queued or unsent, and a share that
solves a block solves the one of the current client. -/
def Pool.OnTime (X : Externals) (p : Pool) (a : Action) : Prop :=
  (a.isWaitNext → p.queue = [] ∧ ∀ pc ∈ p.connections, ∀ e ∈ pc.unsent, e.isSolution = false) ∧
    ∀ job ∈ p.solvedBy X a, job.templateId + 1 = p.clients.length

instance (X : Externals) (p : Pool) (a : Action) : Decidable (p.OnTime X a) :=
  inferInstanceAs (Decidable ((_ → _ ∧ _) ∧ _))

/-- Solutions on their way are for the current block client, and others were. -/
structure Pool.Aligned (p : Pool) : Prop where
  submitted : ∀ s ∈ p.submitted, s.solution.data.templateId = s.client
  queued : ∀ s ∈ p.queue, s.data.templateId + 1 = p.clients.length
  unsent : ∀ (c : Nat) pc (n : Nat) data header, p.connections[c]? = some pc → pc.performed ≤ n →
    pc.conn.effects[n]? = some (.solution data header) → data.templateId + 1 = p.clients.length

/-- A solution that was not there before the step is for a job that a share solved. -/
private theorem unsent_cases (stepped : Pool.Stepped X pool p a p') {c n : Nat}
    {pc' : PoolConnection} {data : SubmitSolutionData} {header : Header}
    (found' : p'.connections[c]? = some pc')
    (unsent : pc'.performed ≤ n) (effect : pc'.conn.effects[n]? = some (.solution data header)) :
    (∃ pc, p.connections[c]? = some pc ∧ pc.performed ≤ n ∧
      pc.conn.effects[n]? = some (.solution data header)) ∨
    ∃ job ∈ p.solvedBy X a, data.templateId = job.templateId := by
  rcases stepped.connection found' with ⟨pc, found, touched⟩ | ⟨_, _, rfl⟩
  · -- an effect from before the step, or one that the step added
    by_cases old : n < pc.conn.effects.length
    · obtain ⟨added, effects⟩ := touched.effects
      rw [effects, List.getElem?_append_left old] at effect
      exact .inl ⟨pc, found, touched.performed_mono.trans unsent, effect⟩
    have new := Nat.not_lt.mp old
    cases touched with
    | kept => exact .inl ⟨pc, found, unsent, effect⟩
    | performed => exact .inl ⟨pc, found, (Nat.le_succ _).trans unsent, effect⟩
    | handled input _ handled =>
      have stepped := Connection.step_cases handled
      rcases stepped.effect_cases new effect with ⟨_, eq⟩ | ⟨_, _, eq⟩ |
        ⟨share, template, now, socket, rfl, added, expected, effects⟩
      · -- open requests and template changes add no solution
        cases eq
      · cases eq
      rw [effects, List.getElem?_append_right new] at effect
      obtain ⟨channel, job, _, _, _, solved, _, rfl, _⟩ :=
        solution_mem_shareEffects (expected.subset (List.mem_of_getElem? effect))
      obtain rfl := Action.eq_of_inputFor_frame input
      refine .inr ⟨job, ?_, rfl⟩
      rw [Pool.solvedBy, found, Option.bind_some, solved]
      rfl
  · cases effect

theorem Pool.Stepped.aligned (stepped : Stepped X pool p a p') (onTime : p.OnTime X a)
    (holds : p.Aligned) : p'.Aligned := by
  -- the clients stay as they are, and new solutions are for the last of them
  have unsent (same : p'.clients = p.clients) (c : Nat) (pc' : PoolConnection) (n : Nat)
      (data : SubmitSolutionData) (header : Header) (found' : p'.connections[c]? = some pc')
      (unsent : pc'.performed ≤ n)
      (effect : pc'.conn.effects[n]? = some (.solution data header)) :
      data.templateId + 1 = p'.clients.length := by
    rw [same]
    rcases unsent_cases stepped found' unsent effect with ⟨pc, found, unsent, effect⟩ |
      ⟨job, solved, eq⟩
    · exact holds.unsent c pc n data header found unsent effect
    · rw [eq]
      exact onTime.2 job solved
  cases stepped with
  | waited =>
    -- a new client: nothing was on its way
    obtain ⟨empty, none⟩ := onTime.1 rfl
    refine ⟨holds.submitted, fun s member => ?_, fun c pc n data header found unsent effect => ?_⟩
    · rw [empty] at member
      cases member
    · have member : Effect.solution data header ∈ pc.unsent := by
        refine List.mem_of_getElem? (i := n - pc.performed) ?_
        rw [PoolConnection.unsent, List.getElem?_drop, Nat.add_sub_cancel' unsent, effect]
      cases none pc (List.mem_of_getElem? found) _ member
  | @sent c pc data header found next =>
    refine ⟨holds.submitted, fun s member => ?_, unsent rfl⟩
    rcases List.mem_append.mp member with member | member
    · exact holds.queued s member
    · obtain rfl := List.mem_singleton.mp member
      exact holds.unsent c pc pc.performed data header found le_rfl next
  -- the solution is submitted on the last client, whose template it solves
  | received _ first =>
    refine ⟨fun s member => ?_, fun s member => holds.queued s ?_, unsent rfl⟩
    · rcases List.mem_append.mp member with member | member
      · exact holds.submitted s member
      · obtain rfl := List.mem_singleton.mp member
        exact Nat.eq_sub_of_add_eq (holds.queued _ (first ▸ List.mem_cons_self))
    · rw [first]
      exact List.mem_cons_of_mem _ member
  | stops => exact ⟨holds.submitted, nofun, unsent rfl⟩
  | _ => exact ⟨holds.submitted, holds.queued, unsent rfl⟩

/-- While solutions and templates do not cross, every solution is submitted on the client
whose template it solves, and the node makes of it the header that was checked. -/
theorem solutions_reach_their_template (started : Pool.start block = .ok p₀)
    (ran : Pool.run X pool p₀ actions = some p)
    (onTime : Execution.Along (Pool.step X pool) (Pool.OnTime X) p₀ actions) :
    ∀ s ∈ p.submitted, ∃ raw block,
      p.SolvedOn X s.client s.solution.data s.solution.header raw block := by
  have aligned : p.Aligned := by
    refine Execution.run_invariant_along Pool.Aligned ?_ ?_ onTime ran
    · intro p a p' holds met stepped
      exact (Pool.step_cases stepped).aligned met holds
    · obtain ⟨connections, queue, submitted⟩ := Pool.start_connections started
      refine ⟨fun s member => ?_, fun s member => ?_, fun c pc n data header found => ?_⟩
      · rw [submitted] at member
        cases member
      · rw [queue] at member
        cases member
      · rw [connections] at found
        cases found
  intro s member
  -- the solution is an effect of its connection, so its template was published
  have inSent : s.solution ∈ p.sent := List.mem_append_left _ (List.mem_map_of_mem member)
  obtain ⟨pc, found, _, effect⟩ := Pool.run_traced started ran s.solution inSent
  obtain ⟨raw, block, solved⟩ := Pool.run_solves started ran found effect
  exact ⟨raw, block, aligned.submitted s member ▸ solved⟩

/-- The next block of the chain. -/
def nextBlock : BlockTemplate :=
  { regtestBlock with
    header := { regtestBlock.header with prevBlockhash := ⟨List.replicate 32 1, by decide⟩ } }

/-- A solution submitted before the next template, and one for that template. -/
def promptActions : List Action :=
  solveActions ++ [.newThread true, .recvSolution, .newThread true, .waitNext nextBlock,
    .fetch true, .changed 0 [0] [], .perform 0, .perform 0,
    .frame 0 (.submitSharesExtended (some { regtestShare with jobId := 2, nonce := 1 }))
      1700000020 [],
    .perform 0, .perform 0, .perform 0, .newThread true, .recvSolution]

theorem solutions_reach_their_template_prompt :
    (regtestAfter promptActions).submitted.map Submission.client = [0, 1] ∧
      ∀ s ∈ (regtestAfter promptActions).submitted, ∃ raw block,
        (regtestAfter promptActions).SolvedOn regtestExternals s.client s.solution.data
          s.solution.header raw block := by
  have checks : (Pool.run regtestExternals regtestAddress regtestPool promptActions).isSome ∧
      Execution.Along (Pool.step regtestExternals regtestAddress) (Pool.OnTime regtestExternals)
        regtestPool promptActions ∧
      (regtestAfter promptActions).submitted.map Submission.client = [0, 1] := by
    decide +kernel
  obtain ⟨runs, onTime, both⟩ := checks
  exact ⟨both, solutions_reach_their_template regtestPool_started (regtestAfter_ran runs) onTime⟩

/-- A template that comes between the share and the submission. -/
def lateActions : List Action :=
  solveActions ++ [.newThread true, .waitNext nextBlock, .fetch true, .newThread true,
    .recvSolution]

private theorem lateActions_checks :
    let p := regtestAfter lateActions
    (Pool.run regtestExternals regtestAddress regtestPool lateActions).isSome ∧
      p.submitted.length = 1 ∧ ∀ s ∈ p.submitted,
        (∀ raw ∈ p.published[s.client]?,
          raw.newTemplate.templateId ≠ s.solution.data.templateId) ∧
        ∀ block ∈ p.clients[s.client]?,
          assembledHeader regtestExternals block s.solution.data ≠ some s.solution.header := by
  decide +kernel

/-- The solution is submitted on the client of the new template, where the node makes
another header of it. -/
theorem solution_misses_its_template :
    let p := regtestAfter lateActions
    Pool.run regtestExternals regtestAddress regtestPool lateActions = some p ∧
      ∃ s ∈ p.submitted,
        (¬∃ raw block,
          p.SolvedOn regtestExternals s.client s.solution.data s.solution.header raw block) ∧
        ∀ block, p.clients[s.client]? = some block →
          assembledHeader regtestExternals block s.solution.data ≠ some s.solution.header := by
  obtain ⟨runs, one, checks⟩ := lateActions_checks
  obtain ⟨s, only⟩ := List.length_eq_one_iff.mp one
  have member : s ∈ (regtestAfter lateActions).submitted := only ▸ List.mem_singleton_self s
  refine ⟨regtestAfter_ran runs, s, member, ?_, (checks s member).2⟩
  rintro ⟨raw, block, solved⟩
  exact (checks s member).1 raw solved.published solved.templateId

end MiningPool
