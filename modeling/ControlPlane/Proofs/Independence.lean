import ControlPlane.Proofs.Bare
import ControlPlane.Proofs.Delivery
import ControlPlane.Proofs.Dropped

/-!
# Watches do not affect each other

What happens to a store concerns everyone, as the calls that open no watch and the shutdown do, or
one watch only: its opening, its polls, and its end. Two runs in which the same concerns everyone
give the same answers and end with the same objects, whatever they do with watches. And two runs in
which, from its opening on, the same concerns everyone and one watch give the consumer of that watch
the same items, whatever else is watched. The watch may bear another number in the other run.

* `Store.Action.deed?`: what an action is to everyone, and to the consumer of one watch.
* `Store.told`: what actions give back that concern everyone, or the one watch.
* `Store.Simulation.run`: the same deeds give back the same, whatever else is done among them.
* `Store.simulation_bare`, `Store.simulation_twins`: it is so for everyone, and for a consumer.
* `Store.neighbours_without_effect`: what holds of any two runs.
-/

namespace ControlPlane

/-! ## Watches under another number -/

namespace Watch

/-- The watch under another number. -/
def renumber (w : Watch) (id : Nat) : Watch := { w with id := id }

variable (w : Watch) (id : Nat)

theorem renumber_close (reason : Option EndReason) :
    (w.renumber id).close reason = (w.close reason).renumber id :=
  w.relabel_close (fun _ => id) (fun x => x) reason

theorem renumber_receive (d : Definition) (capacity now : Nat) (version : Version)
    (change : Change) :
    ((w.renumber id).receive d capacity now version change).1 =
      (w.receive d capacity now version change).1.renumber id :=
  congrArg Prod.fst (w.relabel_receive (fun _ => id) (fun x => x) rfl capacity now)

theorem renumber_poll (now : Nat) :
    (w.renumber id).poll now = ((w.poll now).1, (w.poll now).2.renumber id) :=
  w.relabel_poll (fun _ => id) (fun x => x) now

theorem renumber_step (d : Definition) (capacity : Nat) (a : Input) :
    (w.renumber id).step d capacity a =
      ((w.step d capacity a).1, (w.step d capacity a).2.renumber id) := by
  cases a with
  | change now version change => simp only [step, renumber_receive]
  | poll now => simp only [step, renumber_poll]
  | stop => simp only [step, renumber_close]
  | shutdown => simp only [step, renumber_close]

theorem renumber_after (d : Definition) (capacity : Nat) (inputs : List Input) :
    (w.renumber id).after d capacity inputs = (w.after d capacity inputs).renumber id := by
  induction inputs generalizing w with
  | nil => rfl
  | cons a inputs ih => rw [after, after, renumber_step, ih]

end Watch

namespace Store

/-! ## Deeds -/

/-- What an action is to everyone, or to the consumer of one watch. -/
inductive Deed where
  | call (kind : String) (scope : Scope) (m : Moment) (w : Work) (hw : w.isWatch = false)
  | shutdown
  | poll (now : Nat)
  | stop
  | drop

/-- The action that a deed is, for the consumer of a watch. -/
def Deed.action (h : WatchHandle) : Deed → Action
  | .call kind scope m w _ => .call kind scope m w
  | .shutdown => .shutdown
  | .poll now => .poll now h
  | .stop => .stopWatch h
  | .drop => .dropWatch h

/-- What an action is to everyone, and to the consumer of a watch if there is one. That a watch is
opened is nothing to them, and neither is what becomes of another watch. -/
def Action.deed? (h : Option WatchHandle) : Action → Option Deed
  | .call kind scope m w => if hw : w.isWatch = false then some (.call kind scope m w hw) else none
  | .poll now h' => if some h' = h then some (.poll now) else none
  | .stopWatch h' => if some h' = h then some .stop else none
  | .dropWatch h' => if some h' = h then some .drop else none
  | .shutdown => some .shutdown

/-- The deeds among some actions. -/
def deeds (h : Option WatchHandle) (actions : List Action) : List Deed :=
  actions.filterMap (·.deed? h)

/-- What the deeds among some actions give back. -/
def told (s : Store) (h : Option WatchHandle) : List Action → List Outcome
  | [] => []
  | a :: actions =>
    match a.deed? h with
    | some _ => (s.act a).1 :: (s.act a).2.told h actions
    | none => (s.act a).2.told h actions

variable {s s' : Store} {log log' : List Commit} {i : Nat} {h h' : WatchHandle} {t : Table}
  {w : Watch} {a a' : Action} {d : Deed}

theorem told_cons_of_some {x : Option WatchHandle} (ha : a.deed? x = some d)
    (actions : List Action) :
    s.told x (a :: actions) = (s.act a).1 :: (s.act a).2.told x actions := by
  rw [told, ha]

theorem told_cons_of_none {x : Option WatchHandle} (ha : a.deed? x = none)
    (actions : List Action) : s.told x (a :: actions) = (s.act a).2.told x actions := by
  rw [told, ha]

theorem eq_action_of_deed? (ha : a.deed? (some h) = some d) : a = d.action h := by
  cases a with
  | call kind scope m w =>
    simp only [Action.deed?] at ha
    split at ha
    · rw [← Option.some.inj ha]
      rfl
    · cases ha
  | shutdown =>
    rw [← Option.some.inj ha]
    rfl
  | _ =>
    simp only [Action.deed?] at ha
    split at ha
    · next hh =>
      rw [← Option.some.inj ha, ← Option.some.inj hh]
      rfl
    · cases ha

/-- What is a deed to everyone is the same deed to the consumer of any watch. -/
theorem deed?_of_none (ha : a.deed? none = some d) (h : WatchHandle) :
    a.deed? (some h) = some d := by
  cases a with
  | call kind scope m w => exact ha
  | shutdown => exact ha
  | _ => simp [Action.deed?] at ha

/-! ## What is the same to everyone -/

/-- **What is no deed leaves the store as it is apart from watches.** -/
theorem bare_quiet {x : Option WatchHandle} (ha : a.deed? x = none) :
    (s.act a).2.bare = s.bare := by
  cases a with
  | call kind scope m w =>
    cases hw : w.isWatch with
    | true => exact s.bare_watch kind scope m hw
    | false => simp [Action.deed?, hw] at ha
  | poll now h' => exact s.bare_onWatch h' fun f => f.still_poll now h'.id
  | stopWatch h' => exact s.bare_onWatch h' fun f => f.still_stopWatch h'.id
  | dropWatch h' => exact s.bare_onWatch h' fun f => f.still_dropWatch h'.id
  | shutdown => cases ha

/-- **A deed makes the same of stores that differ in watches only.** -/
theorem bare_deed (hbare : s'.bare = s.bare) (d : Deed) (h h' : WatchHandle) :
    (s'.act (d.action h')).2.bare = (s.act (d.action h)).2.bare := by
  cases d with
  | call kind scope m w hw =>
    have hact := (s'.act_bare kind scope m hw).2
    rw [hbare] at hact
    exact hact.symm.trans (s.act_bare kind scope m hw).2
  | shutdown =>
    have hshutdown := s'.shutdown_bare
    rw [hbare] at hshutdown
    exact hshutdown.symm.trans s.shutdown_bare
  | _ =>
    -- What else a consumer does is nothing to everyone.
    exact (bare_quiet (x := none) rfl).trans (hbare.trans (bare_quiet (x := none) rfl).symm)

/-- Everyone gets the same answer to a call. -/
theorem answer_eq (hbare : s'.bare = s.bare) (kind : String) (scope : Scope) (m : Moment)
    {w : Work} (hw : w.isWatch = false) :
    (s'.act (.call kind scope m w)).1 = (s.act (.call kind scope m w)).1 := by
  have hact := (s'.act_bare kind scope m hw).1
  rw [hbare] at hact
  exact hact.symm.trans (s.act_bare kind scope m hw).1

/-- What a deed brings to the watch of its consumer is the same. -/
theorem inputs_eq (hbare : s'.bare = s.bare) (d : Deed) :
    s'.inputs i h' (d.action h') = s.inputs i h (d.action h) := by
  cases d with
  | call kind scope m w hw =>
    have hcommits := s'.commits_bare kind scope m hw
    rw [hbare, s.commits_bare kind scope m hw] at hcommits
    simp only [Deed.action, inputs, hcommits]
  | shutdown => rfl
  | poll now => simp only [Deed.action, inputs, if_pos]
  | stop => simp only [Deed.action, inputs, if_pos]
  | drop => rfl

/-- What is no deed brings nothing to the watch. -/
theorem inputs_quiet (ha : a.deed? (some h) = none) : s.inputs i h a = [] := by
  cases a with
  | call kind scope m w =>
    cases hw : w.isWatch with
    | true =>
      rw [inputs, s.commits_watch kind scope m hw]
      rfl
    | false => simp [Action.deed?, hw] at ha
  | shutdown => cases ha
  | dropWatch h' => rfl
  | _ =>
    simp only [Action.deed?] at ha
    split at ha
    · cases ha
    · next hh => exact if_neg fun heq => hh (congrArg some heq)

/-! ## What is the same to one consumer -/

/-- The watch is, after an action, what the action brought it made of it. -/
theorem Watches.act (hs : s.Follows log) (hw : s.Watches i h t w) (ha : a ≠ .dropWatch h) :
    ∃ t', (s.act a).2.Watches i h t'
      (w.after t.definition s.limits.queueCapacity (s.inputs i h a)) := by
  obtain ⟨⟨t', ht', hw'⟩, -⟩ := hw.fed hs a ha
  exact ⟨t', ((sameKinds_act hs a).position?_eq _).trans hw.position_eq, ht', hw'⟩

theorem Watches.poll_fst (hw : s.Watches i h t w) (now : Nat) :
    (s.poll now h).1 = (w.poll now).1 := by
  simp only [Store.poll, hw.onWatch_self]
  exact (Focus.watch?_poll_self (f := s.focus t) hw.watch_eq now).1

/-- What is no deed to the consumer of a watch leaves the watch as it is. -/
theorem Watches.quiet (hs : s.Follows log) (hw : s.Watches i h t w)
    (ha : a.deed? (some h) = none) : ∃ t', (s.act a).2.Watches i h t' w := by
  have hne : a ≠ .dropWatch h := by
    rintro rfl
    simp [Action.deed?] at ha
  have hact := hw.act hs hne
  rwa [inputs_quiet ha] at hact

/-- Two stores have the same watch, under numbers of their own, or both have dropped it. -/
inductive SameWatch (s s' : Store) (i : Nat) (h h' : WatchHandle) : Prop
  | kept {t t' : Table} {w : Watch} : s.Watches i h t w →
      s'.Watches i h' t' (w.renumber h'.id) → SameWatch s s' i h h'
  | dropped {t t' : Table} : s.Dropped i h t → s'.Dropped i h' t' → SameWatch s s' i h h'

theorem SameWatch.quiet_left (hs : s.Follows log) (hw : SameWatch s s' i h h')
    (ha : a.deed? (some h) = none) : SameWatch (s.act a).2 s' i h h' := by
  cases hw with
  | kept hw hw' =>
    obtain ⟨t, hw⟩ := hw.quiet hs ha
    exact .kept hw hw'
  | dropped hd hd' =>
    obtain ⟨t, hd⟩ := hd.act hs a
    exact .dropped hd hd'

theorem SameWatch.quiet_right (hs' : s'.Follows log') (hw : SameWatch s s' i h h')
    (ha : a.deed? (some h') = none) : SameWatch s (s'.act a).2 i h h' := by
  cases hw with
  | kept hw hw' =>
    obtain ⟨t, hw'⟩ := hw'.quiet hs' ha
    exact .kept hw hw'
  | dropped hd hd' =>
    obtain ⟨t, hd'⟩ := hd'.act hs' a
    exact .dropped hd hd'

/-- The same deed gives everyone, and the consumer of the watch, the same. -/
theorem SameWatch.answer_eq (hbare : s'.bare = s.bare) (hw : SameWatch s s' i h h') (d : Deed) :
    (s'.act (d.action h')).1 = (s.act (d.action h)).1 := by
  cases d with
  | call kind scope m w hwatch => exact Store.answer_eq hbare kind scope m hwatch
  | poll now =>
    suffices hitem : (s'.poll now h').1 = (s.poll now h).1 from congrArg Outcome.item hitem
    cases hw with
    | kept hw hw' => rw [hw.poll_fst, hw'.poll_fst, Watch.renumber_poll]
    | dropped hd hd' => rw [hd.poll, hd'.poll]
  | _ => rfl

/-- **The same deed makes the same of a watch in both stores.** -/
theorem SameWatch.deed (hs : s.Follows log) (hs' : s'.Follows log') (hbare : s'.bare = s.bare)
    (hw : SameWatch s s' i h h') (d : Deed) :
    SameWatch (s.act (d.action h)).2 (s'.act (d.action h')).2 i h h' := by
  cases hw with
  | @kept t t' w hw hw' =>
    by_cases hdrop : d = .drop
    · subst hdrop
      obtain ⟨_, hd⟩ := hw.dropWatch hs
      obtain ⟨_, hd'⟩ := hw'.dropWatch hs'
      exact .dropped hd hd'
    · have hne (h : WatchHandle) : d.action h ≠ .dropWatch h := by
        cases d with
        | drop => exact absurd rfl hdrop
        | _ => nofun
      obtain ⟨_, hact⟩ := hw.act hs (hne h)
      obtain ⟨_, hact'⟩ := hw'.act hs' (hne h')
      obtain ⟨t₁, ht₁, htable⟩ := exists_table_of_bare hbare hw.table_eq
      obtain rfl := Option.some.inj (hw'.table_eq.symm.trans ht₁)
      have hdefinition : t'.definition = t.definition :=
        show t'.bare.definition = t.bare.definition from congrArg Table.definition htable
      rw [inputs_eq hbare, hdefinition, limits_of_bare hbare, Watch.renumber_after] at hact'
      exact .kept hact hact'
  | dropped hd hd' =>
    obtain ⟨_, hact⟩ := hd.act hs (d.action h)
    obtain ⟨_, hact'⟩ := hd'.act hs' (d.action h')
    exact .dropped hact hact'

/-! ## Two runs -/

/-- A relation of stores that what is no deed keeps on either side, and that the same deed keeps on
both, giving back the same. -/
structure Simulation (x y : Option WatchHandle) (R : Store → Store → Prop) : Prop where
  quiet_left : ∀ {s s' : Store} {a : Action}, R s s' → a.deed? x = none → R (s.act a).2 s'
  quiet_right : ∀ {s s' : Store} {a : Action}, R s s' → a.deed? y = none → R s (s'.act a).2
  deed : ∀ {s s' : Store} {a a' : Action} {d : Deed}, R s s' →
    a.deed? x = some d → a'.deed? y = some d →
    (s'.act a').1 = (s.act a).1 ∧ R (s.act a).2 (s'.act a').2

/-- **The same deeds give back the same, whatever else is done among them.** -/
theorem Simulation.run {x y : Option WatchHandle} {R : Store → Store → Prop}
    (hR : Simulation x y R) (h : R s s') {actions actions' : List Action}
    (hdeeds : deeds x actions = deeds y actions') :
    s'.told y actions' = s.told x actions ∧ R (s.run actions) (s'.run actions') := by
  induction actions generalizing s s' actions' with
  | nil =>
    induction actions' generalizing s' with
    | nil => exact ⟨rfl, h⟩
    | cons a' actions' ih =>
      cases ha' : a'.deed? y with
      | none =>
        rw [deeds, deeds, List.filterMap_cons_none ha'] at hdeeds
        rw [told_cons_of_none ha']
        exact ih (hR.quiet_right h ha') hdeeds
      | some d =>
        rw [deeds, deeds, List.filterMap_cons_some ha'] at hdeeds
        cases hdeeds
  | cons a actions ih =>
    cases ha : a.deed? x with
    | none =>
      rw [deeds, List.filterMap_cons_none ha] at hdeeds
      rw [told_cons_of_none ha]
      exact ih (hR.quiet_left h ha) hdeeds
    | some d =>
      rw [deeds, List.filterMap_cons_some ha] at hdeeds
      -- The other run may do anything else before it comes to this deed.
      induction actions' generalizing s' with
      | nil => cases hdeeds
      | cons a' actions' ih' =>
        cases ha' : a'.deed? y with
        | none =>
          rw [deeds, List.filterMap_cons_none ha'] at hdeeds
          rw [told_cons_of_none ha']
          exact ih' (hR.quiet_right h ha') hdeeds
        | some d' =>
          rw [deeds, List.filterMap_cons_some ha'] at hdeeds
          obtain ⟨rfl, hrest⟩ := List.cons.inj hdeeds
          obtain ⟨houtcome, hnext⟩ := hR.deed h ha ha'
          obtain ⟨htold, hend⟩ := ih hnext hrest
          refine ⟨?_, hend⟩
          rw [told_cons_of_some ha, told_cons_of_some ha', houtcome, htold]

/-- Stores that differ in watches only are the same to everyone. -/
theorem simulation_bare : Simulation none none fun s s' => s'.bare = s.bare where
  quiet_left hbare ha := hbare.trans (bare_quiet ha).symm
  quiet_right hbare ha := (bare_quiet ha).trans hbare
  deed {s s' a a' d} hbare ha ha' := by
    let h : WatchHandle := ⟨"", 0⟩
    have hd := eq_action_of_deed? (deed?_of_none ha h)
    have hd' := eq_action_of_deed? (deed?_of_none ha' h)
    refine ⟨?_, by rw [hd, hd']; exact bare_deed hbare d h h⟩
    obtain rfl : a' = a := hd'.trans hd.symm
    cases a' with
    | call kind scope m w =>
      simp only [Action.deed?] at ha
      split at ha
      · next hw => exact answer_eq hbare kind scope m hw
      · cases ha
    | shutdown => rfl
    | _ => simp [Action.deed?] at ha

/-- Two stores that were reached are the same to everyone, and to the consumer of a watch that may
bear another number in the other store. -/
structure Twins (i : Nat) (h h' : WatchHandle) (s s' : Store) : Prop where
  reached : ∃ log, s.Follows log
  reached' : ∃ log, s'.Follows log
  bare_eq : s'.bare = s.bare
  watch : SameWatch s s' i h h'

theorem simulation_twins (i : Nat) (h h' : WatchHandle) :
    Simulation (some h) (some h') (Twins i h h') where
  quiet_left {s s' a} ht ha := by
    obtain ⟨⟨log, hs⟩, hreached', hbare, hw⟩ := ht
    exact ⟨⟨_, hs.act a⟩, hreached', hbare.trans (bare_quiet ha).symm, hw.quiet_left hs ha⟩
  quiet_right {s s' a} ht ha := by
    obtain ⟨hreached, ⟨log', hs'⟩, hbare, hw⟩ := ht
    exact ⟨hreached, ⟨_, hs'.act a⟩, (bare_quiet ha).trans hbare, hw.quiet_right hs' ha⟩
  deed {s s' a a' d} ht ha ha' := by
    obtain ⟨⟨log, hs⟩, ⟨log', hs'⟩, hbare, hw⟩ := ht
    obtain rfl := eq_action_of_deed? ha
    obtain rfl := eq_action_of_deed? ha'
    exact ⟨hw.answer_eq hbare d, ⟨_, hs.act _⟩, ⟨_, hs'.act _⟩, bare_deed hbare d h h',
      hw.deed hs hs' hbare d⟩

theorem SameWatch.opened (hs : s.Follows log) (hs' : s'.Follows log') (hbare : s'.bare = s.bare)
    {kind : String} {scope : Scope} {m : Moment} {criteria : Criteria} {since : Option Version}
    {timeout : Option Nat} (hfind : s.find kind = .ok i)
    (hopen : (s.act (.call kind scope m (.request (.watch criteria since timeout)))).1 =
      .answer (.ok (.watching h)))
    (hopen' : (s'.act (.call kind scope m (.request (.watch criteria since timeout)))).1 =
      .answer (.ok (.watching h'))) :
    SameWatch (s.act (.call kind scope m (.request (.watch criteria since timeout)))).2
      (s'.act (.call kind scope m (.request (.watch criteria since timeout)))).2 i h h' := by
  obtain ⟨j, t, events, hj, ht, ho, hw⟩ := act_opened hs hopen
  obtain ⟨j', t', events', hj', ht', ho', hw'⟩ := act_opened hs' hopen'
  rw [find_of_bare hbare] at hj'
  obtain rfl := Except.ok.inj (hj.symm.trans hfind)
  obtain rfl := Except.ok.inj (hj.symm.trans hj')
  obtain ⟨t₁, ht₁, htable⟩ := exists_table_of_bare hbare ht
  obtain rfl := Option.some.inj (ht'.symm.trans ht₁)
  have hopening : t'.opening ⟨criteria, scope⟩ since = t.opening ⟨criteria, scope⟩ since :=
    congrArg (·.opening ⟨criteria, scope⟩ since) htable
  obtain rfl := Except.ok.inj (ho.symm.trans (hopening.symm.trans ho'))
  have hnew : Focus.newWatch (s'.focus t') scope m criteria timeout events =
      (Focus.newWatch (s.focus t) scope m criteria timeout events).renumber h'.id := by
    rw [← Table.watch?_id hw'.watch_eq]
    simp only [Focus.newWatch, Watch.renumber, focus, limits_of_bare hbare]
  exact .kept hw (hnew ▸ hw')

/-- **What opens a watch in a store opens it in a store that differs in watches only**, and both are
the same to its consumer; or it is refused for the same cause. -/
theorem twins_opened (hs : s.Follows log) (hs' : s'.Follows log') (hbare : s'.bare = s.bare)
    (kind : String) (scope : Scope) (m : Moment) (criteria : Criteria) (since : Option Version)
    (timeout : Option Nat) {a : Action}
    (ha : a = .call kind scope m (.request (.watch criteria since timeout))) :
    (∃ e, (s.act a).1 = .answer (.error e) ∧ (s'.act a).1 = .answer (.error e)) ∨
    ∃ i h h', (s.act a).1 = .answer (.ok (.watching h)) ∧
      (s'.act a).1 = .answer (.ok (.watching h')) ∧ Twins i h h' (s.act a).2 (s'.act a).2 := by
  have hquiet : a.deed? none = none := by rw [ha]; rfl
  have hsame : (s'.act a).2.bare = (s.act a).2.bare :=
    (bare_quiet hquiet).trans (hbare.trans (bare_quiet hquiet).symm)
  subst ha
  have hfind' := find_of_bare hbare kind
  cases hfind : s.find kind with
  | error e =>
    rw [hfind] at hfind'
    exact Or.inl ⟨e, by simp only [act, onKind, hfind], by simp only [act, onKind, hfind']⟩
  | ok i =>
    rw [hfind] at hfind'
    cases ht : s.tables[i]? with
    | none =>
      have ht' : s'.tables[i]? = none := by simpa [ht] using table_of_bare hbare i
      exact Or.inl ⟨.unknownKind kind, by simp only [act, onKind, hfind, ht],
        by simp only [act, onKind, hfind', ht']⟩
    | some t =>
      obtain ⟨t', ht', htable⟩ := exists_table_of_bare hbare ht
      have hopening : t'.opening ⟨criteria, scope⟩ since = t.opening ⟨criteria, scope⟩ since :=
        congrArg (·.opening ⟨criteria, scope⟩ since) htable
      have hanswer := answer_watch hfind ht scope m criteria since timeout
      have hanswer' := answer_watch hfind' ht' scope m criteria since timeout
      rw [hopening] at hanswer'
      cases ho : t.opening ⟨criteria, scope⟩ since with
      | error e =>
        rw [ho] at hanswer hanswer'
        exact Or.inl ⟨e, hanswer, hanswer'⟩
      | ok events =>
        rw [ho] at hanswer hanswer'
        exact Or.inr ⟨i, _, _, hanswer, hanswer', ⟨_, hs.act _⟩, ⟨_, hs'.act _⟩, hsame,
          .opened hs hs' hbare hfind hanswer hanswer'⟩

/-! ## What a consumer gets -/

/-- The item that an action gives back, if it is a poll. -/
def Outcome.item? : Outcome → Option Watch.Item
  | .item x => some x
  | _ => none

theorem itemsOf_quiet (ha : a.deed? (some h) = none) : s.itemsOf h a = [] := by
  cases a with
  | poll now h' =>
    simp only [Action.deed?] at ha
    split at ha
    · cases ha
    · next hh =>
      rw [itemsOf_poll]
      exact if_neg fun heq => hh (congrArg some heq)
  | _ => rfl

theorem itemsOf_action (s : Store) (h : WatchHandle) (d : Deed) :
    s.itemsOf h (d.action h) = (s.act (d.action h)).1.item?.toList := by
  cases d with
  | poll now =>
    rw [Deed.action, itemsOf_poll, if_pos rfl]
    rfl
  | _ => rfl

/-- What the consumer of a watch gets is among what it is told. -/
theorem items_eq_told (s : Store) (h : WatchHandle) (actions : List Action) :
    s.items h actions = (s.told (some h) actions).filterMap Outcome.item? := by
  induction actions generalizing s with
  | nil => rfl
  | cons a actions ih =>
    cases ha : a.deed? (some h) with
    | none =>
      rw [items, told_cons_of_none ha, itemsOf_quiet ha, ih]
      rfl
    | some d =>
      obtain rfl := eq_action_of_deed? ha
      rw [items, told_cons_of_some ha, itemsOf_action, ih, List.filterMap_cons]
      cases (s.act (d.action h)).1.item? <;> rfl

/-- **Watches do not affect each other, nor anything else.** Of two runs in which the same concerns
everyone, the calls that open no watch get the same answers and the stores end with the same
objects, versions and histories. A watch opened after both is refused in both for the same cause or
opened in both, and then, as long as the same is done to it, its consumer gets the same, up to the
end of its stream. -/
theorem neighbours_without_effect (catalog : Catalog) (limits : WatchLimits)
    (before before' : List Action) (hbefore : deeds none before = deeds none before')
    {s s' : Store} (hs : s = (empty catalog limits).run before)
    (hs' : s' = (empty catalog limits).run before') :
    (empty catalog limits).told none before' = (empty catalog limits).told none before ∧
    s'.bare = s.bare ∧
    ∀ kind scope m criteria since timeout a,
      a = .call kind scope m (.request (.watch criteria since timeout)) →
      (∃ e, (s.act a).1 = .answer (.error e) ∧ (s'.act a).1 = .answer (.error e)) ∨
      ∃ h h', (s.act a).1 = .answer (.ok (.watching h)) ∧
        (s'.act a).1 = .answer (.ok (.watching h')) ∧
        ∀ after after', deeds (some h) after = deeds (some h') after' →
          (s'.act a).2.told (some h') after' = (s.act a).2.told (some h) after ∧
          (s'.act a).2.items h' after' = (s.act a).2.items h after ∧
          ((s'.act a).2.run after').bare = ((s.act a).2.run after).bare := by
  subst hs hs'
  obtain ⟨htold, hbare⟩ := simulation_bare.run (s := empty catalog limits) rfl hbefore
  refine ⟨htold, hbare, ?_⟩
  intro kind scope m criteria since timeout a ha
  have hfollows := follows_reached catalog limits before
  have hfollows' := follows_reached catalog limits before'
  rcases twins_opened hfollows hfollows' hbare kind scope m criteria since timeout ha with
    hrefused | ⟨i, h, h', hopen, hopen', htwins⟩
  · exact Or.inl hrefused
  · refine Or.inr ⟨h, h', hopen, hopen', ?_⟩
    intro after after' hafter
    obtain ⟨htold, hend⟩ := (simulation_twins i h h').run htwins hafter
    refine ⟨htold, ?_, hend.bare_eq⟩
    rw [items_eq_told, items_eq_told, htold]

/-- The same creations, with a neighbour that falls behind and is dropped, and without any. -/
theorem neighbours_without_effect_configs :
    ∃ h h', ((configStore.run [createConfig "a"]).act (watchConfigs 1)).1 =
        .answer (.ok (.watching h)) ∧
      ((configStore.run [watchConfigs 0, createConfig "a"]).act (watchConfigs 1)).1 =
        .answer (.ok (.watching h')) ∧ h ≠ h' ∧
      ((configStore.run [watchConfigs 0, createConfig "a"]).act (watchConfigs 1)).2.items h'
          [createConfig "b", createConfig "c", .dropWatch ⟨"v1/ConfigMap", 0⟩, .poll 2 h'] =
        ((configStore.run [createConfig "a"]).act (watchConfigs 1)).2.items h
          [createConfig "b", createConfig "c", .poll 2 h] := by
  obtain ⟨-, -, hall⟩ := neighbours_without_effect configCatalog ⟨2, 1000, 2⟩
    [createConfig "a"] [watchConfigs 0, createConfig "a"] rfl rfl rfl
  have hopen : ((configStore.run [createConfig "a"]).act (watchConfigs 1)).1 =
      .answer (.ok (.watching ⟨"v1/ConfigMap", 0⟩)) := rfl
  have hopen' : ((configStore.run [watchConfigs 0, createConfig "a"]).act (watchConfigs 1)).1 =
      .answer (.ok (.watching ⟨"v1/ConfigMap", 1⟩)) := rfl
  rcases hall _ _ _ _ _ _ (watchConfigs 1) rfl with ⟨e, he, -⟩ | ⟨h, h', ho, ho', hafter⟩
  · cases hopen.symm.trans he
  · cases hopen.symm.trans ho
    cases hopen'.symm.trans ho'
    refine ⟨_, _, hopen, hopen', by decide, ?_⟩
    exact (hafter _ _ (by simp [deeds, Action.deed?, createConfig, configCall, Work.isWatch])).2.1

end Store

end ControlPlane
