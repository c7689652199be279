import CommandCenter.Daemon.ServerParts

/-!
# How often a game counts

A session takes a seat when it hosts or joins a game, and reports results while it has one. A
report leaves the seat as it was, so that the next report in it counts too.

* `Score`: the games and the results of a session, and the reports it sent again.
* `Bncs.gameResult_scores`: a report records one result at most.
* `scoring_sound`: the invariant.
* `results_bounded`: the results that any session has recorded.
-/

namespace CommandCenter.Daemon

open Rust CommandCenter.Core Proto Library
open Storage (Account)

/-! ## The score of a session -/

/-- What a session hosted, joined and reported. -/
structure Score where
  /-- Games that were hosted or joined. -/
  games : Nat
  recorded : Nat
  reports : Nat
  /-- Reports in a seat that had a result recorded before. -/
  repeated : Nat
  /-- The seat has had a result recorded. -/
  counted : Bool

namespace Score

def note (score : Score) : Entry → Score
  | .took frame =>
    if frame.id = Sid.notifyJoin then
      match Bncs.readJoin.read frame with
      | .ok _ => { score with games := score.games + 1, counted := false }
      | .error _ => score
    else if frame.id = Sid.gameResult then
      { score with
        reports := score.reports + 1
        repeated := score.repeated + if score.counted then 1 else 0 }
    else score
  | .asked (.recordHostedGame _) _ => { score with games := score.games + 1, counted := false }
  | .asked (.recordGame _ _ _) _ | .asked (.recordLadderGame _ _ _ _ _ _) _ =>
    { score with recorded := score.recorded + 1, counted := true }
  | .asked _ _ => score

/-- No more results than reports, nor than games and reports that were sent again. -/
structure Balanced (score : Score) : Prop where
  reports : score.recorded ≤ score.reports
  games : score.recorded ≤ score.games + score.repeated

/-- There is a report and a game for one more result. -/
structure Room (score : Score) : Prop where
  reports : score.recorded < score.reports
  games : score.recorded < score.games + score.repeated

/-- A seat has had its result recorded, or has a game for it. -/
def Open (score : Score) : Prop :=
  score.counted = true ∨ score.recorded < score.games + score.repeated

end Score

/-- The score after all that a session did. -/
def score (log : List Entry) : Score := log.foldl Score.note ⟨0, 0, 0, 0, false⟩

@[simp] theorem score_concat (log : List Entry) (entry : Entry) :
    score (log ++ [entry]) = (score log).note entry := by
  rw [score, List.foldl_append]
  rfl

namespace Score

variable {score : Score} {frame : Frame}

theorem note_asked {q : Request} (answer : Reply q) (hosting : q.concern ≠ .hosting)
    (results : q.concern ≠ .results) : score.note (.asked q answer) = score := by
  cases q
  all_goals first | rfl | exact absurd rfl hosting | exact absurd rfl results

theorem note_result {q : Request} (answer : Reply q) (hq : q.concern = .results)
    (h : score.Room) : (score.note (.asked q answer)).Balanced ∧
      (score.note (.asked q answer)).Open := by
  have hreports := h.reports
  have hgames := h.games
  cases q
  all_goals first | contradiction | exact ⟨⟨by exact hreports, by exact hgames⟩, Or.inl rfl⟩

theorem note_hosting {q : Request} (answer : Reply q) (hq : q.concern = .hosting)
    (h : score.Balanced) : (score.note (.asked q answer)).Balanced ∧
      (score.note (.asked q answer)).Open := by
  have hreports := h.reports
  have hgames := h.games
  cases q
  case recordHostedGame product =>
    refine ⟨⟨hreports, ?_⟩, Or.inr ?_⟩
    · show score.recorded ≤ score.games + 1 + score.repeated
      omega
    · show score.recorded < score.games + 1 + score.repeated
      omega
  all_goals contradiction

theorem note_took (hjoin : frame.id ≠ Sid.notifyJoin) (hresult : frame.id ≠ Sid.gameResult) :
    score.note (.took frame) = score := by
  rw [note, if_neg hjoin, if_neg hresult]

theorem note_join (hid : frame.id = Sid.notifyJoin) (h : score.Balanced) :
    (score.note (.took frame)).Balanced ∧
      ((Bncs.readJoin.read frame).isOk = true ∨ score.Open → (score.note (.took frame)).Open) := by
  have hreports := h.reports
  have hgames := h.games
  rw [note, if_pos hid]
  split
  · refine ⟨⟨hreports, ?_⟩, fun _ => Or.inr ?_⟩
    · show score.recorded ≤ score.games + 1 + score.repeated
      omega
    · show score.recorded < score.games + 1 + score.repeated
      omega
  · rename_i herror
    refine ⟨h, fun hopen => hopen.resolve_left ?_⟩
    rw [herror]
    exact Bool.false_ne_true

theorem note_report (hid : frame.id = Sid.gameResult) (h : score.Balanced) :
    (score.note (.took frame)).Balanced ∧ (score.Open → (score.note (.took frame)).Room ∧
      (score.note (.took frame)).Open) := by
  have hreports := h.reports
  have hgames := h.games
  have hnote : score.note (.took frame) = { score with
      reports := score.reports + 1
      repeated := score.repeated + if score.counted then 1 else 0 } := by
    rw [note, if_neg (by rw [hid]; decide), if_pos hid]
  rw [hnote]
  refine ⟨⟨?_, ?_⟩, fun hopen => ?_⟩
  · show score.recorded ≤ score.reports + 1
    omega
  · show score.recorded ≤ score.games + (score.repeated + _)
    omega
  · have hmore :
        score.recorded < score.games + (score.repeated + if score.counted then 1 else 0) := by
      rcases hopen with hcounted | hroom
      · rw [hcounted, if_pos rfl]
        omega
      · omega
    exact ⟨⟨Nat.lt_succ_of_le hreports, hmore⟩, Or.inr hmore⟩

end Score

/-! ## Handlers -/

/-- The score is balanced, and open if there is a seat. -/
def Bncs.Fair (s : Bncs) (log : List Entry) : Prop :=
  (score log).Balanced ∧ (s.gameSeat.isSome = true → (score log).Open)

/-- A session asks for a result where there is room for it. -/
def scoring : Contract where
  asks _ log q := q.concern = .results → (score log).Room
  answers _ _ _ := True
  inv := Bncs.Fair
  during _ log := (score log).Balanced
  left log := (score log).Balanced

/-- The requests that leave the score as it is. -/
def Request.Unscored (q : Request) : Prop := q.concern ≠ .hosting ∧ q.concern ≠ .results

theorem Footprint.Asks.unscored {fp : Footprint} {q : Request} (h : fp.Asks q)
    (hfp : fp.concern ≠ .hosting ∧ fp.concern ≠ .results) : q.Unscored := by
  rcases h with hother | hsame | ⟨_, hlisting⟩
  · exact ⟨by rw [hother]; exact Concern.noConfusion, by rw [hother]; exact Concern.noConfusion⟩
  · exact ⟨by rw [hsame]; exact hfp.1, by rw [hsame]; exact hfp.2⟩
  · exact ⟨by rw [hlisting]; exact Concern.noConfusion, by rw [hlisting]; exact Concern.noConfusion⟩

theorem Footprint.light_unscored {q : Request} (h : Footprint.light.Asks q) : q.Unscored :=
  h.unscored ⟨Concern.noConfusion, Concern.noConfusion⟩

theorem keeps_score {α : Type} {post : α → Prop} {x : Program α}
    (h : x.Within Request.Unscored post) (log : List Entry) :
    x.Keeps (scoring.watch s) (fun value log' => post value ∧ score log' = score log) log := by
  refine h.keeps score (fun log q answer hq => ?_) fun log q _ hq hresults => absurd hresults hq.2
  show score (log ++ [.asked q answer]) = score log
  rw [score_concat, Score.note_asked answer hq.1 hq.2]

/-- The rule for a request, and what follows it. -/
theorem scoring_ask {q : Request} {f : Reply q → Handling} {log : List Entry}
    {post : Step × Bncs → List Entry → Prop} (hasks : scoring.asks s log q)
    (hf : ∀ answer, (f answer).Keeps (scoring.watch s) post (log ++ [.asked q answer])) :
    Asking.Keeps (scoring.watch s) post (ask q >>= f) log := ⟨hasks, fun answer _ => hf answer⟩

theorem scoring_bind {α : Type} {x : Program α} {f : α → Handling} {log : List Entry}
    {post : α → Prop} {post' : Step × Bncs → List Entry → Prop}
    (hx : x.Within Request.Unscored post)
    (hf : ∀ value log', post value → score log' = score log →
      (f value).Keeps (scoring.watch s) post' log') :
    Asking.Keeps (scoring.watch s) post' (x >>= f) log :=
  Asking.keeps_bind.mpr ((keeps_score hx log).mono fun value log' h => hf value log' h.1 h.2)

namespace Bncs

variable {cfg : ServerConfig} {s : Bncs} {frame : Frame} {log : List Entry}

theorem Fair.of_score {s' : Bncs} {log' : List Entry} (h : s.Fair log)
    (hseat : s'.gameSeat.isSome = s.gameSeat.isSome) (hscore : score log' = score log) :
    s'.Fair log' := by
  unfold Fair
  rw [hseat, hscore]
  exact h

theorem send_scores {s' : Bncs} (h : s'.Fair log) :
    (s'.send frame).Keeps (scoring.watch s) (fun r log' => r.2.Fair log') log := by
  refine scoring_ask Concern.noConfusion fun queued => ?_
  refine h.of_score rfl ?_
  rw [score_concat, Score.note_asked _ Concern.noConfusion Concern.noConfusion]

theorem host_scores (account : Account) (ad : Advertisement) (h : s.Fair log) :
    (s.host account ad).Keeps (scoring.watch s) (fun r log' => r.2.Fair log') log := by
  have hother {q : Request} (answer : Reply q) (hq : q.Unscored) {log : List Entry} :
      score (log ++ [.asked q answer]) = score log := by
    rw [score_concat, Score.note_asked answer hq.1 hq.2]
  refine scoring_ask Concern.noConfusion fun created => ?_
  refine scoring_ask Concern.noConfusion fun free => ?_
  have hstill : s.Fair (log ++ [.asked .instant created] ++ [.asked (.advertiseGame _) free]) := by
    refine h.of_score rfl ?_
    rw [hother free ⟨Concern.noConfusion, Concern.noConfusion⟩,
      hother created ⟨Concern.noConfusion, Concern.noConfusion⟩]
  split
  · split
    · exact send_scores hstill
    · refine scoring_ask Concern.noConfusion fun since => ?_
      refine scoring_ask Concern.noConfusion fun _ => send_scores ?_
      unfold Fair
      rw [score_concat, hother since ⟨Concern.noConfusion, Concern.noConfusion⟩]
      obtain ⟨hbalanced, hopen⟩ := Score.note_hosting (q := .recordHostedGame _) () rfl hstill.1
      exact ⟨hbalanced, fun _ => hopen⟩
  · exact send_scores hstill

theorem advertise_scores (h : s.Fair log) :
    (s.advertise cfg frame).Keeps (scoring.watch s) (fun r log' => r.2.Fair log') log := by
  unfold advertise
  split
  · split
    · exact h
    · exact h
    · rename_i account _ _ _
      split
      · have hwins : (s.normalWins account.name).Within Footprint.light.Asks fun _ => True :=
          normalWins_within _
        refine scoring_bind (hwins.imp fun _ => Footprint.light_unscored) ?_
        intro wins log' _ hscore
        split
        · exact send_scores (h.of_score rfl hscore)
        · exact host_scores _ _ (h.of_score rfl hscore)
      · exact host_scores _ _ h
  · exact send_scores h

theorem startGame_seat (starts : Bool) : (s.startGame starts).Within Request.Unscored fun s' =>
    s'.gameSeat.isSome = s.gameSeat.isSome := by
  unfold startGame
  split
  · rfl
  · rename_i seat hseat
    split
    · refine ⟨⟨Concern.noConfusion, Concern.noConfusion⟩, fun since _ => ?_⟩
      refine ⟨⟨Concern.noConfusion, Concern.noConfusion⟩, fun _ _ => ?_⟩
      show true = _
      rw [hseat]
      rfl
    · rfl

theorem stopAdvertising_scores (starts : Bool) (h : s.Fair log) :
    (s.stopAdvertising starts).Keeps (scoring.watch s) (fun r log' => r.2.Fair log') log := by
  have hwithdraw : s.withdrawGame.Within (Footprint.Asks { lists := true }) fun _ => True :=
    withdrawGame_within rfl
  refine scoring_bind (hwithdraw.imp fun q hq => ?_) fun _ log₁ _ hscore₁ => ?_
  · exact hq.unscored ⟨Concern.noConfusion, Concern.noConfusion⟩
  refine scoring_bind (startGame_seat starts) fun s' log₂ hseat hscore₂ => ?_
  exact h.of_score hseat (hscore₂.trans hscore₁)

theorem notifyJoin_scores (hid : frame.id = Sid.notifyJoin) (h : s.Fair log) :
    (s.notifyJoin frame).Keeps (scoring.watch s) (fun r log' => r.2.Fair log')
      (log ++ [.took frame]) := by
  obtain ⟨hbalanced, hopen⟩ := Score.note_join hid h.1
  unfold notifyJoin
  split
  · show Fair _ _
    unfold Fair
    rw [score_concat]
    exact ⟨hbalanced, fun hseat => hopen (Or.inr (h.2 hseat))⟩
  · rename_i name hread
    refine scoring_ask Concern.noConfusion fun since => ?_
    show Fair _ _
    unfold Fair
    rw [score_concat, Score.note_asked since Concern.noConfusion Concern.noConfusion, score_concat]
    exact ⟨hbalanced, fun _ => hopen (Or.inl (by rw [hread]; rfl))⟩

/-- What a report asks for last. -/
theorem record_scores {q : Request} (hq : q.concern = .results) (hroom : (score log).Room) :
    Asking.Keeps (scoring.watch s) (fun r log' => r.2.Fair log') (do
      let _ : Reply q ← ask q
      return (Step.continue, s)) log := by
  refine ⟨fun _ => hroom, fun answer _ => ?_⟩
  show Fair s (log ++ [.asked q answer])
  unfold Fair
  rw [score_concat]
  obtain ⟨hbalanced, hopen⟩ := Score.note_result answer hq hroom
  exact ⟨hbalanced, fun _ => hopen⟩

theorem recordResult_scores (account : Account) (product : Text) (report : ResultReport)
    (h : s.Fair log) (hroom : (score log).Room) :
    (s.recordResult account product report).Keeps (scoring.watch s) (fun r log' => r.2.Fair log')
      log := by
  unfold recordResult
  split
  · exact h
  · split
    · exact record_scores rfl hroom
    · have hwins : (s.normalWins account.name).Within Footprint.light.Asks fun _ => True :=
        normalWins_within _
      refine scoring_bind (hwins.imp fun _ => Footprint.light_unscored) ?_
      intro wins log₁ _ hscore₁
      split
      · exact h.of_score rfl hscore₁
      · have hratings (key : Storage.AttrKey) : (opponentRatings key (report.slot account.name)
            report.results 0 report.names).Within Footprint.light.Asks fun _ => True :=
          opponentRatings_within key _ _ _ _
        refine scoring_bind ((hratings _).imp fun _ => Footprint.light_unscored) ?_
        intro ratings log₂ _ hscore₂
        refine record_scores rfl ?_
        rw [hscore₂, hscore₁]
        exact hroom

theorem gameResult_scores (hid : frame.id = Sid.gameResult) (h : s.Fair log) :
    (s.gameResult cfg frame).Keeps (scoring.watch s) (fun r log' => r.2.Fair log')
      (log ++ [.took frame]) := by
  obtain ⟨hbalanced, hreport⟩ := Score.note_report hid h.1
  have htook : s.Fair (log ++ [.took frame]) := by
    unfold Fair
    rw [score_concat]
    exact ⟨hbalanced, fun hseat => (hreport (h.2 hseat)).2⟩
  unfold gameResult
  split
  · rename_i account product report seat _ _ _ hseat
    have hroom : (score (log ++ [.took frame])).Room := by
      rw [score_concat]
      exact (hreport (h.2 (by rw [hseat]; rfl))).1
    have hlasted : (s.seatLasted seat).Within Footprint.light.Asks fun _ => True :=
      seatLasted_within seat
    refine scoring_bind (hlasted.imp fun _ => Footprint.light_unscored) ?_
    intro lasted log' _ hscore
    split
    · exact htook.of_score rfl hscore
    · exact recordResult_scores _ _ _ (htook.of_score rfl hscore) (hscore ▸ hroom)
  · exact htook

/-- A packet, of which the four kinds about games are as above. -/
theorem dispatch_scores (h : s.Fair log) :
    (s.dispatch cfg frame).Keeps (scoring.watch s) (fun r log' => r.2.Fair log')
      (log ++ [.took frame]) := by
  have htook (hjoin : frame.id ≠ Sid.notifyJoin) (hresult : frame.id ≠ Sid.gameResult) :
      s.Fair (log ++ [.took frame]) := by
    refine h.of_score rfl ?_
    rw [score_concat, Score.note_took hjoin hresult]
  by_cases hhost : frame.id = Sid.startAdvEx3
  · have hdispatch : s.dispatch cfg frame = s.advertise cfg frame := by
      rw [dispatch, hhost]
      rfl
    rw [hdispatch]
    exact advertise_scores (htook (by rw [hhost]; decide) (by rw [hhost]; decide))
  by_cases hresult : frame.id = Sid.gameResult
  · have hdispatch : s.dispatch cfg frame = s.gameResult cfg frame := by
      rw [dispatch, hresult]
      rfl
    rw [hdispatch]
    exact gameResult_scores hresult h
  by_cases hjoin : frame.id = Sid.notifyJoin
  · have hdispatch : s.dispatch cfg frame = s.notifyJoin frame := by
      rw [dispatch, hjoin]
      rfl
    rw [hdispatch]
    exact notifyJoin_scores hjoin h
  by_cases hstop : frame.id = Sid.stopAdv
  · have hdispatch : s.dispatch cfg frame = s.stopAdvertising true := by
      rw [dispatch, hstop]
      rfl
    rw [hdispatch]
    exact stopAdvertising_scores true (htook hjoin hresult)
  by_cases hleave : frame.id = Sid.leaveGame
  · have hdispatch : s.dispatch cfg frame = s.stopAdvertising false := by
      rw [dispatch, hleave]
      rfl
    rw [hdispatch]
    exact stopAdvertising_scores false (htook hjoin hresult)
  · have hleaves : (s.dispatch cfg frame).Within (footprint frame.id).Asks
        fun r => (footprint frame.id).Keeps s r.2 := dispatch_leaves
    have hunscored := footprint_concern hhost hresult
    refine (keeps_score (hleaves.imp fun q hq => hq.unscored hunscored) _).mono fun r log' hr => ?_
    refine (htook hjoin hresult).of_score ?_ hr.2
    have hgames : r.2.games = s.games := hr.1.games.resolve_left (by
      rw [footprint_games hhost (by simp [hstop, hleave, hjoin])]
      exact Bool.false_ne_true)
    exact congrArg (fun games => games.2.isSome) hgames

theorem Fair.advance (h : s.Fair log) (id : UInt8) : (s.advance id).Fair log := by
  rcases s.advance_cases id with hsame | ⟨next, _, _, hnext⟩
  · rw [hsame]
    exact h
  · rw [hnext]
    exact h

theorem leave_scores (h : (score log).Balanced) :
    s.leave.Keeps (scoring.watch s) (fun _ log' => (score log').Balanced) log := by
  have hcleanup : s.cleanup.Within Request.Unscored fun _ => True :=
    cleanup_within.imp fun q hq => hq.unscored ⟨Concern.noConfusion, Concern.noConfusion⟩
  have hleave : s.leave.Within Request.Unscored fun _ => True := by
    refine hcleanup.bind fun _ _ => ?_
    exact ⟨⟨Concern.noConfusion, Concern.noConfusion⟩, fun _ _ => trivial⟩
  refine (keeps_score hleave log).mono fun _ log' hlog' => ?_
  rw [hlog'.2]
  exact h

end Bncs

/-! ## Every run -/

theorem scoring_sound (cfg : ServerConfig) : scoring.Sound (fun _ _ _ => True) cfg where
  starts _ _ := ⟨⟨Nat.le_refl 0, Nat.le_refl 0⟩, Bool.noConfusion⟩
  takes := by
    intro s log frame hfair _
    show (score (log ++ [.took frame])).Balanced
    rw [score_concat]
    by_cases hjoin : frame.id = Sid.notifyJoin
    · exact (Score.note_join hjoin hfair.1).1
    by_cases hresult : frame.id = Sid.gameResult
    · exact (Score.note_report hresult hfair.1).1
    · rw [Score.note_took hjoin hresult]
      exact hfair.1
  handles := by
    intro s log frame hfair _ _
    apply Contract.keeps_handle
    refine (Bncs.dispatch_scores hfair).mono fun r log' hr => ?_
    exact ⟨fun _ => hr.advance frame.id, fun _ => ⟨hr.1, Bncs.leave_scores hr.1⟩⟩
  notes := by
    intro s log q answer hbalanced hasks _
    show (score (log ++ [.asked q answer])).Balanced
    rw [score_concat]
    by_cases hresults : q.concern = .results
    · exact (Score.note_result answer hresults (hasks hresults)).1
    by_cases hhosting : q.concern = .hosting
    · exact (Score.note_hosting answer hhosting hbalanced).1
    · rw [Score.note_asked answer hhosting hresults]
      exact hbalanced
  leaves := by
    intro s log state hfair _
    exact ⟨hfair.1, Bncs.leave_scores hfair.1⟩

namespace Server

/-- **Results are bounded**: in every run, the results that a session has had recorded are no
more than its reports, and no more than the games it hosted or joined and the reports that it sent
again in a seat that had a result recorded. -/
theorem results_bounded (cfg : ServerConfig) (keys : KeyRegistry)
    (keyHolderNames : Map KeyId Text) (events : List Event) :
    Always (step cfg) (fun v => ∀ i, (score (v.log i)).Balanced)
      (.new cfg keys keyHolderNames) events := by
  have hmeets : Along (step cfg) (scoring.Meets (fun _ _ _ => True) cfg)
      (.new cfg keys keyHolderNames) events := by
    refine along_of_forall fun event _ v => ?_
    cases event with
    | frame i frame => exact fun _ _ => trivial
    | turn i others => exact fun _ _ => trivial
    | accepts _ _ _ _ _ | hangUp _ => trivial
  refine ((scoring_sound cfg).always hmeets).imp fun v hv i => ?_
  have hi := hv i
  have hempty (h : v.log i = []) : (score (v.log i)).Balanced := by
    rw [h]
    exact ⟨Nat.le_refl 0, Nat.le_refl 0⟩
  generalize v.conns i = conn at hi
  cases conn with
  | unused | plain _ _ => exact hempty hi
  | idle s => exact hi.1
  | handling s frame rest =>
    cases rest with
    | done _ => exact hi.elim
    | ask q next => exact hi.1
  | leaving s rest =>
    cases rest with
    | done _ => exact hi.elim
    | ask q next => exact hi.1
  | ended => exact hi.elim hempty id

/-- A host that reports its win twice. -/
def reportsTwice : List Event :=
  let report : Frame := ⟨Sid.gameResult, Writer.u32 0 ++ Writer.u32 1 ++ Writer.u32 1 ++
    Writer.cstr alice.name.asBytes⟩
  .accepts 0 0x01 (.v4 1) false 7 :: exchange alice 0 (authInfoFrame Product.star) ++
    exchange alice 0 ⟨Sid.authCheck, []⟩ ++ exchange alice 0 ⟨Sid.logonResponse2, logonBody 7⟩ ++
    exchange alice 0 ⟨Sid.enterChat, []⟩ ++
    exchange alice 0 ⟨Sid.startAdvEx3, [0, 0, 0, 0, 0].flatMap Writer.u32 ++
      Writer.cstr (Text.asBytes "duel".toList) ++ Writer.cstr [] ++ Writer.cstr []⟩ ++
    exchange alice 0 report ++ exchange alice 0 report

/-- Two results of one game. -/
theorem reported_twice : ¬ ∀ cfg keys keyHolderNames events,
    Always (step cfg) (fun v => ∀ i, (score (v.log i)).recorded ≤ (score (v.log i)).games)
      (.new cfg keys keyHolderNames) events := by
  intro h
  have hlast := (h .lenient (.new 500) ∅ reportsTwice).last 0
  revert hlast
  decide +kernel

end Server

end CommandCenter.Daemon
