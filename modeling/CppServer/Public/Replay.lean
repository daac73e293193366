/-
# The replay log of a game table

`tagGameReplay` of `public/gameStruct.h` collects the players, the steps and the results of
a round.  `clear` lowers the flags of all records and keeps them, and each of the three
`add` functions reuses the first record whose flag is down, overwriting it field by field,
or appends a new one.  The three vectors are instances of `CppServer.Lib.Slots`: that every
field is overwritten is what makes the branch that reuses a record and the branch that
appends one store the same record.
-/
import CppServer.Lib.Bytes
import CppServer.Lib.Slots

namespace CppServer.Public

/-- `tagReplayStep`. -/
structure ReplayStep where
  time : Int32
  bet : Bytes
  round : Int32
  ty : Int32
  chairId : Int32
  pos : Int32
  flag : Bool
deriving DecidableEq

/-- `tagReplayResult`. -/
structure ReplayResult where
  chairId : Int32
  pos : Int32
  bet : Int64
  win : Int64
  cardtype : Bytes
  isbanker : Bool
  flag : Bool
deriving DecidableEq

/-- `tagReplayPlayer`. -/
structure ReplayPlayer where
  userid : Int32
  accout : Bytes
  score : Int64
  chairid : Int32
  flag : Bool
deriving DecidableEq

/-- The three vectors of `tagGameReplay`. -/
structure GameReplay where
  players : List ReplayPlayer
  steps : List ReplayStep
  results : List ReplayResult
deriving DecidableEq

namespace GameReplay

/-- `tagGameReplay::clear`. -/
def clear (s : GameReplay) : GameReplay where
  steps := s.steps.map fun it => { it with flag := false }
  players := s.players.map fun it => { it with flag := false }
  results := s.results.map fun it => { it with flag := false }

/-- `tagGameReplay::addResult`. -/
def addResult (s : GameReplay) (chairId pos : Int32) (bet win : Int64) (cardtype : Bytes)
    (isBanker : Bool) : GameReplay :=
  { s with
    results := useSlot ReplayResult.flag
      { chairId := chairId, pos := pos, bet := bet, win := win, cardtype := cardtype,
        isbanker := isBanker, flag := true }
      (fun it => { it with
        chairId := chairId, pos := pos, bet := bet, win := win, isbanker := isBanker,
        cardtype := cardtype, flag := true })
      s.results }

/-- `tagGameReplay::addPlayer`. -/
def addPlayer (s : GameReplay) (userid : Int32) (account : Bytes) (score : Int64)
    (chairid : Int32) : GameReplay :=
  { s with
    players := useSlot ReplayPlayer.flag
      { accout := account, userid := userid, score := score, chairid := chairid, flag := true }
      (fun it => { it with
        accout := account, userid := userid, score := score, chairid := chairid, flag := true })
      s.players }

/-- `tagGameReplay::addStep`. -/
def addStep (s : GameReplay) (time : Int32) (bet : Bytes) (round ty chairId pos : Int32) :
    GameReplay :=
  { s with
    steps := useSlot ReplayStep.flag
      { time := time, bet := bet, round := round, ty := ty, chairId := chairId, pos := pos,
        flag := true }
      (fun it => { it with
        time := time, bet := bet, round := round, ty := ty, chairId := chairId, pos := pos,
        flag := true })
      s.steps }

/-- An empty log. -/
def empty : GameReplay := ⟨[], [], []⟩

end GameReplay

/-! ## Runs of the log -/

/-- A call with its arguments. -/
inductive Call where
  | clear
  | addPlayer (userid : Int32) (account : Bytes) (score : Int64) (chairid : Int32)
  | addStep (time : Int32) (bet : Bytes) (round ty chairId pos : Int32)
  | addResult (chairId pos : Int32) (bet win : Int64) (cardtype : Bytes) (isBanker : Bool)
deriving DecidableEq

namespace Call

/-- The call is `clear`. -/
def isClear : Call → Bool
  | .clear => true
  | _ => false

/-- The arguments of an `addPlayer` call, as the flagged record they make. -/
def player? : Call → Option ReplayPlayer
  | .addPlayer userid account score chairid => some ⟨userid, account, score, chairid, true⟩
  | _ => none

/-- The arguments of an `addStep` call. -/
def step? : Call → Option ReplayStep
  | .addStep time bet round ty chairId pos => some ⟨time, bet, round, ty, chairId, pos, true⟩
  | _ => none

/-- The arguments of an `addResult` call. -/
def result? : Call → Option ReplayResult
  | .addResult chairId pos bet win cardtype isBanker =>
      some ⟨chairId, pos, bet, win, cardtype, isBanker, true⟩
  | _ => none

end Call

/-- The effect of a call. -/
def GameReplay.apply (s : GameReplay) : Call → GameReplay
  | .clear => s.clear
  | .addPlayer userid account score chairid => s.addPlayer userid account score chairid
  | .addStep time bet round ty chairId pos => s.addStep time bet round ty chairId pos
  | .addResult chairId pos bet win cardtype isBanker =>
      s.addResult chairId pos bet win cardtype isBanker

/-- The log after a list of calls. -/
def replay (calls : List Call) : GameReplay := calls.foldl GameReplay.apply .empty

/-! ## Each vector is a log in recycled slots -/

lemma players_replay (calls : List Call) :
    (replay calls).players = calls.foldl
      (slotStep ReplayPlayer.flag (fun it => { it with flag := false }) Call.isClear
        Call.player?) [] := by
  refine (List.foldl_hom GameReplay.players ?_).symm
  intro s call
  cases call <;> rfl

lemma steps_replay (calls : List Call) :
    (replay calls).steps = calls.foldl
      (slotStep ReplayStep.flag (fun it => { it with flag := false }) Call.isClear
        Call.step?) [] := by
  refine (List.foldl_hom GameReplay.steps ?_).symm
  intro s call
  cases call <;> rfl

lemma results_replay (calls : List Call) :
    (replay calls).results = calls.foldl
      (slotStep ReplayResult.flag (fun it => { it with flag := false }) Call.isClear
        Call.result?) [] := by
  refine (List.foldl_hom GameReplay.results ?_).symm
  intro s call
  cases call <;> rfl

lemma replay_snoc (calls : List Call) (call : Call) :
    replay (calls ++ [call]) = (replay calls).apply call := by
  simp [replay, List.foldl_append]

/-- **The replay log.**  After any list of calls, in each of the three vectors the flagged
records stand first and are, in order, the arguments of the calls of the current round, the
vector has as many records as the longest round so far, a further call shortens no vector,
and an `add` leaves the two other vectors as they are. -/
theorem replay_logs_current_round (calls : List Call) :
    (Logs ReplayPlayer.flag ((currentRound Call.isClear calls).filterMap Call.player?)
        (replay calls).players ∧
      (replay calls).players.length = longestRound Call.isClear Call.player? calls) ∧
    (Logs ReplayStep.flag ((currentRound Call.isClear calls).filterMap Call.step?)
        (replay calls).steps ∧
      (replay calls).steps.length = longestRound Call.isClear Call.step? calls) ∧
    (Logs ReplayResult.flag ((currentRound Call.isClear calls).filterMap Call.result?)
        (replay calls).results ∧
      (replay calls).results.length = longestRound Call.isClear Call.result? calls) ∧
    (∀ call,
      (replay calls).players.length ≤ (replay (calls ++ [call])).players.length ∧
      (replay calls).steps.length ≤ (replay (calls ++ [call])).steps.length ∧
      (replay calls).results.length ≤ (replay (calls ++ [call])).results.length) ∧
    (∀ call, call ≠ .clear →
      (call.player? = none → (replay (calls ++ [call])).players = (replay calls).players) ∧
      (call.step? = none → (replay (calls ++ [call])).steps = (replay calls).steps) ∧
      (call.result? = none → (replay (calls ++ [call])).results = (replay calls).results)) := by
  refine ⟨?_, ?_, ?_, ?_, ?_⟩
  · rw [players_replay]
    refine slots_of_foldl (fun _ => rfl) ?_ calls
    intro call r h
    cases call <;> simp [Call.player?] at h
    rw [← h]
  · rw [steps_replay]
    refine slots_of_foldl (fun _ => rfl) ?_ calls
    intro call r h
    cases call <;> simp [Call.step?] at h
    rw [← h]
  · rw [results_replay]
    refine slots_of_foldl (fun _ => rfl) ?_ calls
    intro call r h
    cases call <;> simp [Call.result?] at h
    rw [← h]
  · intro call
    simp only [players_replay, steps_replay, results_replay, List.foldl_append, List.foldl_cons,
      List.foldl_nil]
    exact ⟨length_le_slotStep _ _, length_le_slotStep _ _, length_le_slotStep _ _⟩
  · intro call hclear
    rw [replay_snoc]
    cases call with
    | clear => exact absurd rfl hclear
    | addPlayer userid account score chairid =>
      exact ⟨fun h => absurd h (by simp [Call.player?]), fun _ => rfl, fun _ => rfl⟩
    | addStep time bet round ty chairId pos =>
      exact ⟨fun _ => rfl, fun h => absurd h (by simp [Call.step?]), fun _ => rfl⟩
    | addResult chairId pos bet win cardtype isBanker =>
      exact ⟨fun _ => rfl, fun _ => rfl, fun h => absurd h (by simp [Call.result?])⟩

/-- A second round that is shorter than the first leaves one free slot behind. -/
example : (replay [.addPlayer 1 [] 10 0, .addPlayer 2 [] 20 1, .clear,
    .addPlayer 3 [] 30 0]).players = [⟨3, [], 30, 0, true⟩, ⟨2, [], 20, 1, false⟩] := by
  decide

end CppServer.Public
