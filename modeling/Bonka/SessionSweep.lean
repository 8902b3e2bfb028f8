import Bonka.SessionEviction

/-!
# What a finished clean-up leaves

The other half of `SessionEviction`: a clean-up that runs to its end while other threads create,
touch and remove sessions.  Of the sessions that were stored when it began and that nobody else
has touched, replaced or removed since, exactly those that were inactive are gone
(`finished_cleanup_exact`): its iteration misses none of them, whatever order it takes, and no
other thread makes it give up one.
-/

namespace Bonka

open Transition

variable {T : Type} [DecidableEq T] {s s' s₀ s₁ s₂ s₃ : ThreadState T} {event : ThreadEvent T}
  {before middle : List (ThreadEvent T)} {t : T} {now : Instant} {timeout : Duration} {id : Id}
  {session : Session} {call call' : SessionCall}

/-- Only the removal of an id takes it out of `sessions`. -/
theorem SharedStep.removed (edge : SharedStep s event s')
    (stored : s.manager.sessions.lookup id = some session)
    (gone : s'.manager.sessions.lookup id = none) :
    ∃ t ids, event = .take t ∧ s.calls t = some (.remove (id :: ids)) := by
  have impossible : s'.manager.sessions.lookup id ≠ s.manager.sessions.lookup id := by
    rw [gone, stored]
    intro same
    cases same
  cases edge with
  | create => exact absurd rfl impossible
  | step edge =>
      cases edge with
      | @take t taken ids other here found =>
          have removal : SharedStep s (.take t) _ := .step (.take here found)
          obtain ⟨ids, head⟩ := head_of_take removal stored gone
          exact ⟨t, ids, rfl, head⟩
      | @insert t other =>
          by_cases own : other.id = id
          · have present : (s.manager.sessions.insert other.id other).lookup id = none := gone
            rw [own, AList.lookup_insert] at present
            cases present
          · exact absurd (AList.lookup_insert_ne (Ne.symm own)) impossible
      | @touch t touched =>
          have kept : (s.manager.touchSession touched s.clock).1.sessions.lookup id = none := gone
          rw [SessionManager.lookup_touchSession] at kept
          split at kept
          · rename_i same
            rw [← same, stored] at kept
            cases kept
          · rw [stored] at kept
            cases kept
      | retain | retainEmpty =>
          refine absurd ?_ impossible
          simp only [ThreadState.act, SessionManager.sessions_retainOrigin]
      | _ => exact absurd rfl impossible

/-! ## The clean-up has the id before it -/

/-- The clean-up still comes to the id: it is yet to be tested, or was found inactive. -/
def SessionCall.Awaits (id : Id) : SessionCall → Prop
  | .collect _ _ keys visited ids => id ∈ keys ∧ (id ∈ visited → id ∈ ids)
  | .remove ids | .retain _ _ ids | .drop _ ids => id ∈ ids
  | .insert _ | .push _ => False

/-- Until the clean-up has removed an inactive session, it does not lose sight of it. -/
theorem SharedStep.awaits (edge : SharedStep s event s') (unfinished : event ≠ .finish t)
    (keyed : s.manager.Keyed) (stored : s.manager.sessions.lookup id = some session)
    (expired : SessionManager.Expired now timeout session)
    (kept : s'.manager.sessions.lookup id = some session) (here : s.calls t = some call)
    (cleaning : ∃ ids, call.toRemove now timeout = some ids) (awaits : call.Awaits id) :
    ∃ call', s'.calls t = some call' ∧ call'.Awaits id := by
  by_cases own : event.thread = some t
  · cases edge with
    | create idle =>
        cases own
        rw [here] at idle
        cases idle
    | step edge =>
        cases edge with
        | create idle | remove _ idle | cleanup _ idle =>
            cases own
            rw [here] at idle
            cases idle
        | touch => exact ⟨call, here, awaits⟩
        | advance => cases own
        | insert there | push there =>
            cases own
            cases here.symm.trans there
            exact awaits.elim
        | @take _ taken ids other there found =>
            cases own
            cases here.symm.trans there
            refine ⟨_, Function.update_self .., ?_⟩
            rcases List.mem_cons.mp awaits with same | later
            · subst same
              have gone : (s.manager.sessions.erase id).lookup id = some session := kept
              rw [AList.lookup_erase] at gone
              cases gone
            · exact later
        | @miss _ missed ids there absent =>
            cases own
            cases here.symm.trans there
            refine ⟨_, Function.update_self .., ?_⟩
            rcases List.mem_cons.mp awaits with same | later
            · rw [same, absent] at stored
              cases stored
            · exact later
        | retain there | retainEmpty there | dropOrigin there =>
            cases own
            cases here.symm.trans there
            exact ⟨_, Function.update_self .., awaits⟩
        | @visit _ now' timeout' keys visited ids tested found there present =>
            cases own
            cases here.symm.trans there
            refine ⟨_, Function.update_self .., awaits.1, fun seen => ?_⟩
            obtain ⟨left, same⟩ := cleaning
            simp only [SessionCall.toRemove, Option.ite_none_right_eq_some] at same
            obtain ⟨⟨rfl, rfl⟩, -⟩ := same
            rcases List.mem_cons.mp seen with this | earlier
            · -- the test of the id itself finds the session inactive
              subst this
              cases stored.symm.trans present
              rw [if_pos expired, keyed stored]
              exact List.mem_append_right _ (List.mem_singleton_self id)
            · split
              · exact List.mem_append_left _ (awaits.2 earlier)
              · exact awaits.2 earlier
        | @collected _ now' timeout' keys visited ids there complete =>
            cases own
            cases here.symm.trans there
            refine ⟨_, Function.update_self .., awaits.2 (complete id awaits.1 ?_)⟩
            exact AList.lookup_isSome.mp (by rw [stored]; rfl)
        | finish there =>
            cases own
            exact absurd rfl unfinished
  · exact ⟨call, (edge.calls_of_other own).trans here, awaits⟩

/-! ## The end of a clean-up -/

/-- Nobody but the clean-up of thread `t` has to do with the id in this step: it is not touched,
no session is stored under it, and no other call removes it. -/
structure LeftTo (t : T) (id : Id) (s : ThreadState T) (event : ThreadEvent T) : Prop where
  untouched : ∀ t', event ≠ .touch t' id
  unreplaced : ∀ session, Stores s event session → session.id ≠ id
  unremoved : ∀ t' ids, event = .take t' → s.calls t' = some (.remove (id :: ids)) → t' = t

/-- Where the clean-up of thread `t` stands with a session that is left to it: an inactive one is
gone or still comes up, an active one stays and will not be removed. -/
def Sweeping (t : T) (now : Instant) (timeout : Duration) (id : Id) (session : Session)
    (s : ThreadState T) : Prop :=
  if SessionManager.Expired now timeout session then
    s.manager.sessions.lookup id = none ∨ s.manager.sessions.lookup id = some session ∧
      ∃ call, s.calls t = some call ∧ call.Awaits id
  else
    s.manager.sessions.lookup id = some session ∧
      ∀ ids, s.toRemove t now timeout = some ids → id ∉ ids

theorem SharedStep.sweeping (edge : SharedStep s event s') (left : LeftTo t id s event)
    (unfinished : event ≠ .finish t) (cleaning : CleaningUp t now timeout s)
    (sweeping : Sweeping t now timeout id session s) :
    Sweeping t now timeout id session s' := by
  -- the session is removed or stays as it is
  have outcome : s'.manager.sessions.lookup id = none ∨
      s'.manager.sessions.lookup id = s.manager.sessions.lookup id := by
    rcases edge.lookup_step id with ⟨other, stores, own, -⟩ | ⟨t', touch, -⟩ | ⟨-, -, kept⟩
    · exact absurd own (left.unreplaced other stores)
    · exact absurd touch (left.untouched t')
    · exact kept
  obtain ⟨ids, toRemove⟩ := cleaning.toRemove
  unfold Sweeping at sweeping ⊢
  split at sweeping
  · rename_i expired
    rw [if_pos expired]
    rcases outcome with gone | kept
    · exact .inl gone
    · rw [kept]
      rcases sweeping with gone | ⟨stored, call, here, awaits⟩
      · exact .inl gone
      · refine .inr ⟨stored, ?_⟩
        obtain ⟨call', here', own⟩ := Option.bind_eq_some_iff.mp toRemove
        cases here.symm.trans here'
        exact edge.awaits unfinished cleaning.keyed stored expired (kept.trans stored) here
          ⟨ids, own⟩ awaits
  · rename_i active
    rw [if_neg active]
    obtain ⟨stored, spared⟩ := sweeping
    obtain ⟨ids', toRemove', grown⟩ := edge.toRemove unfinished cleaning.keyed toRemove
    have stays : s'.manager.sessions.lookup id = some session := by
      rcases outcome with gone | kept
      · obtain ⟨t', rest, rfl, head⟩ := edge.removed stored gone
        cases left.unremoved t' rest rfl head
        have removing : s.toRemove t now timeout = some (id :: rest) :=
          Option.bind_eq_some_iff.mpr ⟨_, head, rfl⟩
        exact absurd List.mem_cons_self (spared _ removing)
      · exact kept.trans stored
    refine ⟨stays, fun ids'' removing member => ?_⟩
    cases toRemove'.symm.trans removing
    rcases grown id member with earlier | rfl
    · exact spared ids toRemove earlier
    · exact active (edge.inactive_of_visit cleaning.tested toRemove' member stays)

/-- **A finished clean-up has removed exactly the inactive sessions.**  Let a clean-up begin at
`s₀` and end at `s₃`, with any other calls in between.  A session that was stored when it began and
that was left to it is gone in the end if it had been inactive for the timeout when the clean-up
read the clock, and is stored unchanged if it had not. -/
theorem finished_cleanup_exact (reached : Run SharedStep .init before s₀)
    (begun : SharedStep s₀ (.cleanup t timeout) s₁)
    (stored : s₀.manager.sessions.lookup id = some session)
    (run : Run (fun s event s' => SharedStep s event s' ∧ LeftTo t id s event) s₁ middle s₂)
    (unfinished : .finish t ∉ middle) (finished : SharedStep s₂ (.finish t) s₃) :
    s₃.manager.sessions.lookup id =
      if SessionManager.Expired s₀.clock timeout session then none else some session := by
  obtain ⟨nothing, -⟩ := toRemove_of_cleanup begun
  obtain ⟨keyed, tested⟩ := run_tested (reached.snoc begun)
  have start : CleaningUp t s₀.clock timeout s₁ ∧ Sweeping t s₀.clock timeout id session s₁ := by
    refine ⟨⟨keyed, tested, [], nothing⟩, ?_⟩
    unfold Sweeping
    cases begun with
    | step begun =>
        cases begun with
        | cleanup timeout idle =>
            split
            · refine .inr ⟨stored, _, Function.update_self .., ?_, fun seen => by cases seen⟩
              exact AList.mem_keys.mp (AList.lookup_isSome.mp (by rw [stored]; rfl))
            · refine ⟨stored, fun ids removing => ?_⟩
              cases nothing.symm.trans removing
              exact List.not_mem_nil
  have sweeping : CleaningUp t s₀.clock timeout s₂ ∧ Sweeping t s₀.clock timeout id session s₂ := by
    clear finished
    induction run with
    | nil => exact start
    | @snoc events s s' event _ last ih =>
        have before := ih fun member => unfinished (List.mem_append_left _ member)
        have notFinish : event ≠ .finish t := fun same => unfinished (by rw [same]; simp)
        refine ⟨before.1.run (.single last.1) (by simpa using Ne.symm notFinish), ?_⟩
        exact last.1.sweeping last.2 notFinish before.1 before.2
  cases finished with
  | step finished =>
      cases finished with
      | finish there =>
          have atEnd := sweeping.2
          unfold Sweeping at atEnd
          split at atEnd
          · rename_i expired
            rw [if_pos expired]
            rcases atEnd with gone | ⟨-, call, here, awaits⟩
            · exact gone
            · cases here.symm.trans there
              cases awaits
          · rename_i active
            rw [if_neg active]
            exact atEnd.1

/-- One session, idle for 100. -/
def ThreadState.oneIdle : ThreadState Bool where
  manager := (SessionManager.new.insertSession ⟨1, 0, 0, "127.0.0.1:4000"⟩).pushOrigin
    "127.0.0.1:4000" 1
  clock := 100
  calls _ := none
  issued := [1]
  dropped := []

theorem oneIdle_reached : ∃ before, Run SharedStep .init before .oneIdle := by
  have idle : Function.update (Function.update (Function.update (fun _ : Bool => none) false
      (some (SessionCall.insert ⟨1, 0, 0, "127.0.0.1:4000"⟩))) false
      (some (.push ⟨1, 0, 0, "127.0.0.1:4000"⟩))) false none = fun _ => none := by
    simp
  unfold ThreadState.oneIdle
  rw [← idle]
  exact ⟨_, .snoc (.snoc (.snoc (.snoc .nil
    (.step (@ThreadStep.create _ _ _ false ⟨1, 0, 0, "127.0.0.1:4000"⟩ rfl (by decide) le_rfl
      rfl)))
    (.step (.insert (t := false) rfl)))
    (.step (.push (t := false) rfl)))
    (.step (.advance 100))⟩

/-- A session idle for 100 is gone after a clean-up of all that are idle for 50, during which
another thread has begun a session of its own. -/
theorem finished_cleanup_exact_idle :
    ∃ (middle : List (ThreadEvent Bool)) (s₁ s₂ s₃ : ThreadState Bool),
      SharedStep .oneIdle (.cleanup true 50) s₁ ∧ Run SharedStep s₁ middle s₂ ∧
        .create false ⟨2, 100, 100, "127.0.0.1:4001"⟩ ∈ middle ∧ SharedStep s₂ (.finish true) s₃ ∧
        s₃.manager.sessions.lookup 1 = none := by
  obtain ⟨before, reached⟩ := oneIdle_reached
  have left : ∀ {s : ThreadState Bool} {event : ThreadEvent Bool}, (∀ t, event ≠ .insert t) →
      (∀ t, event ≠ .touch t 1) → event ≠ .take false → LeftTo true 1 s event := by
    intro s event notInsert notTouch notTake
    refine ⟨notTouch, fun session stores => ?_, fun t ids same _ => ?_⟩
    · obtain ⟨t, same, -⟩ := stores
      exact absurd same (notInsert t)
    · cases t with
      | true => rfl
      | false => exact absurd same notTake
  have begun := SharedStep.step (@ThreadStep.cleanup Bool _ .oneIdle true 50 rfl)
  have middle := (@Run.nil _ _ (fun s event s' => SharedStep (T := Bool) s event s' ∧
      LeftTo true 1 s event) (ThreadState.oneIdle.act true ThreadState.oneIdle.manager
        (some (.collect 100 50 ThreadState.oneIdle.manager.sessions.keys [] []))))
    |>.snoc ⟨.step (@ThreadStep.visit _ _ _ true _ _ _ _ _ 1 _ rfl rfl List.not_mem_nil),
      left (by simp) (by simp) (by simp)⟩
    |>.snoc ⟨.step (@ThreadStep.create _ _ _ false ⟨2, 100, 100, "127.0.0.1:4001"⟩ rfl (by decide)
      le_rfl rfl), left (by simp) (by simp) (by simp)⟩
    |>.snoc ⟨.step (.collected (t := true) rfl fun id member _ => only_key member),
      left (by simp) (by simp) (by simp)⟩
    |>.snoc ⟨.step (.take (t := true) rfl rfl), left (by simp) (by simp) (by simp)⟩
    |>.snoc ⟨.step (.retainEmpty (t := true) rfl rfl), left (by simp) (by simp) (by simp)⟩
    |>.snoc ⟨.step (.dropOrigin (t := true) rfl), left (by simp) (by simp) (by simp)⟩
  exact ⟨_, _, _, _, begun, middle.mono And.left, by simp, .step (.finish rfl),
    (finished_cleanup_exact reached begun rfl middle (by simp) (.step (.finish rfl))).trans rfl⟩

end Bonka
