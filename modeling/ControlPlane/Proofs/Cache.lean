import ControlPlane.Proofs.Delivery

/-!
# Lists and watches together

A client lists the objects it selects, watches from the version of the list on, and does to its copy
what each event says. The copy is then, whenever the watch has been drained, what a list would give.

A change moves an object into the selection, within it, out of it, or not at all near it. In each
case the event says what the change does to the selected objects, and says it truly: it adds what
was not there, modifies what was, and removes what was there as it was.

* `Cache.Step`, `Cache.Applies`: what an event, or some, make of a copy, if they speak the truth.
* `Cache.step_view`: the event of a commit makes of the selected objects what the commit makes of
  them.
* `Store.cache_coherent`: a list and a watch from its version on give every later list.
-/

namespace ControlPlane

/-- A client's copy of the objects it selects, by key. -/
abbrev Cache := SortedMap Key Object

namespace Cache

/-- The copy that the items of a list give. -/
def ofItems (d : Definition) (items : List Object) : Cache := items.map fun o => (d.keyOf o, o)

/-- What an event makes of a copy. It adds an object under a key that is free, modifies one that is
there, or deletes one that is there, which it shows as it was but for the version. -/
inductive Step (d : Definition) (cache : Cache) (e : Event) : Cache → Prop
  | added {key : Key} : e.type = .added → d.key e.object = .ok key →
      SortedMap.get? cache key = none → Step d cache e (SortedMap.insert cache key e.object)
  | modified {key : Key} {o : Object} : e.type = .modified → d.key e.object = .ok key →
      SortedMap.get? cache key = some o → Step d cache e (SortedMap.insert cache key e.object)
  | deleted {key : Key} {o : Object} : e.type = .deleted → d.key e.object = .ok key →
      SortedMap.get? cache key = some o → e.object = o.stamped e.version →
      Step d cache e (SortedMap.erase cache key)

/-- What some events make of a copy, each of them at the version its object carries. -/
inductive Applies (d : Definition) : Cache → List Event → Cache → Prop
  | nil (cache : Cache) : Applies d cache [] cache
  | cons {cache cache' cache'' : Cache} {e : Event} {events : List Event} : Step d cache e cache' →
      e.object.metadata.resourceVersion = some e.version.text → Applies d cache' events cache'' →
      Applies d cache (e :: events) cache''

/-- The selected objects of some records. -/
def view (x : Selection) (d : Definition) (records : SortedMap Key Record) : Cache :=
  (records.filter fun e => x.selects d e.2.object).map fun e => (e.1, e.2.object)

/-! ## The selected objects -/

section View

variable {x : Selection} {d : Definition} {records : SortedMap Key Record} {key : Key} {r : Record}

theorem sorted_view (h : SortedMap.Sorted records) : SortedMap.Sorted (view x d records) :=
  List.pairwise_map.mpr (h.filter _)

theorem mem_view {o : Object} : (key, o) ∈ view x d records ↔
    ∃ r, (key, r) ∈ records ∧ x.selects d r.object = true ∧ r.object = o := by
  simp only [view, List.mem_map, List.mem_filter, Prod.mk.injEq]
  constructor
  · rintro ⟨⟨key', r⟩, ⟨hr, hselected⟩, rfl, rfl⟩
    exact ⟨r, hr, hselected, rfl⟩
  · rintro ⟨r, hr, hselected, rfl⟩
    exact ⟨(key, r), ⟨hr, hselected⟩, rfl, rfl⟩

/-- A selected object is a record's that is selected. -/
theorem get?_view (h : SortedMap.Sorted records) (x : Selection) (d : Definition) (key : Key) :
    SortedMap.get? (view x d records) key =
      ((SortedMap.get? records key).map (·.object)).filter (x.selects d) := by
  refine Option.ext fun o => ?_
  rw [SortedMap.get?_eq_some_iff (sorted_view h), mem_view, Option.filter_eq_some_iff,
    Option.map_eq_some_iff]
  constructor
  · rintro ⟨r, hr, hselected, rfl⟩
    exact ⟨⟨r, (SortedMap.get?_eq_some_iff h).mpr hr, rfl⟩, hselected⟩
  · rintro ⟨⟨r, hr, rfl⟩, hselected⟩
    exact ⟨r, (SortedMap.get?_eq_some_iff h).mp hr, hselected, rfl⟩

theorem get?_view_selected (h : SortedMap.Sorted records)
    (hget : SortedMap.get? records key = some r) (hselected : x.selects d r.object = true) :
    SortedMap.get? (view x d records) key = some r.object := by
  rw [get?_view h, hget, Option.map_some, Option.filter_some, if_pos hselected]

theorem get?_view_other (h : SortedMap.Sorted records)
    (hget : SortedMap.get? records key = some r) (hother : x.selects d r.object = false) :
    SortedMap.get? (view x d records) key = none := by
  rw [get?_view h, hget, Option.map_some, Option.filter_some, if_neg (by simp [hother])]

theorem get?_view_free (h : SortedMap.Sorted records)
    (hfree : SortedMap.get? records key = none) :
    SortedMap.get? (view x d records) key = none := by
  rw [get?_view h, hfree]
  rfl

/-- What is written at one key is known by what is selected there. -/
theorem view_eq (key : Key) {records' : SortedMap Key Record} {cache : Cache}
    (h : SortedMap.Sorted records) (h' : SortedMap.Sorted records')
    (hcache : SortedMap.Sorted cache)
    (hself : SortedMap.get? (view x d records') key = SortedMap.get? cache key)
    (hother : ∀ k, k ≠ key → SortedMap.get? records' k = SortedMap.get? records k ∧
      SortedMap.get? cache k = SortedMap.get? (view x d records) k) :
    view x d records' = cache := by
  refine SortedMap.ext (sorted_view h') hcache fun k => ?_
  by_cases hk : k = key
  · rw [hk, hself]
  · obtain ⟨hrecords, hk⟩ := hother k hk
    rw [hk, get?_view h, get?_view h', hrecords]

/-- A selected object that is written is written among the selected ones. -/
theorem view_insert_selected (h : SortedMap.Sorted records)
    (hselected : x.selects d r.object = true) :
    view x d (SortedMap.insert records key r) =
      SortedMap.insert (view x d records) key r.object := by
  have h' := SortedMap.sorted_insert h key r
  refine view_eq key h h' (SortedMap.sorted_insert (sorted_view h) _ _) ?_ fun k hk => ?_
  · rw [get?_view_selected h' (SortedMap.get?_insert_self ..) hselected, SortedMap.get?_insert_self]
  · exact ⟨SortedMap.get?_insert_of_ne _ _ hk, SortedMap.get?_insert_of_ne _ _ hk⟩

/-- Any other object that is written leaves the selected ones. -/
theorem view_insert_other (h : SortedMap.Sorted records)
    (hother : x.selects d r.object = false) :
    view x d (SortedMap.insert records key r) = SortedMap.erase (view x d records) key := by
  have h' := SortedMap.sorted_insert h key r
  refine view_eq key h h' (SortedMap.sorted_erase (sorted_view h) _) ?_ fun k hk => ?_
  · rw [get?_view_other h' (SortedMap.get?_insert_self ..) hother, SortedMap.get?_erase_self]
  · exact ⟨SortedMap.get?_insert_of_ne _ _ hk, SortedMap.get?_erase_of_ne _ hk⟩

theorem view_erase (h : SortedMap.Sorted records) :
    view x d (SortedMap.erase records key) = SortedMap.erase (view x d records) key := by
  have h' := SortedMap.sorted_erase h key
  refine view_eq key h h' (SortedMap.sorted_erase (sorted_view h) _) ?_ fun k hk => ?_
  · rw [get?_view_free h' (SortedMap.get?_erase_self ..), SortedMap.get?_erase_self]
  · exact ⟨SortedMap.get?_erase_of_ne _ hk, SortedMap.get?_erase_of_ne _ hk⟩

theorem erase_of_none {cache : Cache} (h : SortedMap.Sorted cache)
    (hnone : SortedMap.get? cache key = none) : SortedMap.erase cache key = cache := by
  refine SortedMap.ext (SortedMap.sorted_erase h _) h fun key' => ?_
  by_cases hkey : key' = key
  · subst hkey
    rw [SortedMap.get?_erase_self, hnone]
  · rw [SortedMap.get?_erase_of_ne _ hkey]

end View

/-! ## Commits -/

/-- A selection does not look at the version of an object. -/
theorem selects_stamped (x : Selection) (d : Definition) (o : Object) (v : Version) :
    x.selects d (o.stamped v) = x.selects d o := rfl

variable {x : Selection} {d : Definition} {records : SortedMap Key Record}

/-- **The event of a commit makes of the selected objects what the commit makes of them**, and a
commit without an event leaves them. -/
theorem step_view (hsorted : SortedMap.Sorted records) (hfiled : Filed d records) {c : Commit}
    (hfits : c.Fits d records) :
    match c.event? x d with
    | none => view x d (c.write records) = view x d records
    | some e => Step d (view x d records) e (view x d (c.write records)) ∧
        e.object.metadata.resourceVersion = some e.version.text := by
  obtain ⟨i, key, version, change⟩ := c
  replace hfits : change.Fits d records version key := hfits
  cases hfits with
  | @created new hfree hplaced =>
    have hnone : SortedMap.get? (view x d records) key = none := get?_view_free hsorted hfree
    simp only [Commit.event?, Selection.event?_created, Commit.write]
    cases hnew : x.selects d new with
    | true =>
      refine ⟨?_, hplaced.version_eq⟩
      rw [view_insert_selected hsorted hnew]
      exact .added rfl hplaced.key_eq hnone
    | false =>
      refine (view_insert_other hsorted hnew).trans ?_
      exact erase_of_none (sorted_view hsorted) hnone
  | @updated r new hget hplaced =>
    have hold := hfiled key r hget
    simp only [Commit.event?, Selection.event?_updated, Commit.write]
    cases hbefore : x.selects d r.object with
    | true =>
      have hthere := get?_view_selected hsorted hget hbefore
      cases hnew : x.selects d new with
      | true =>
        refine ⟨?_, hplaced.version_eq⟩
        rw [view_insert_selected hsorted hnew]
        exact .modified rfl hplaced.key_eq hthere
      | false =>
        refine ⟨?_, rfl⟩
        rw [view_insert_other hsorted hnew]
        exact .deleted rfl (hold.stamped version).key_eq hthere rfl
    | false =>
      have hnone := get?_view_other hsorted hget hbefore
      cases hnew : x.selects d new with
      | true =>
        refine ⟨?_, hplaced.version_eq⟩
        rw [view_insert_selected hsorted hnew]
        exact .added rfl hplaced.key_eq hnone
      | false =>
        refine (view_insert_other hsorted hnew).trans ?_
        exact erase_of_none (sorted_view hsorted) hnone
  | @deleted r hget hplaced =>
    have hsame := selects_stamped x d r.object version
    simp only [Commit.event?, Selection.event?_deleted, Commit.write]
    cases hbefore : x.selects d (r.object.stamped version) with
    | true =>
      refine ⟨?_, hplaced.version_eq⟩
      rw [view_erase hsorted]
      exact .deleted rfl hplaced.key_eq
        (get?_view_selected hsorted hget (hsame.symm.trans hbefore)) rfl
    | false =>
      have hnone := get?_view_other hsorted hget (hsame.symm.trans hbefore)
      exact (view_erase hsorted).trans (erase_of_none (sorted_view hsorted) hnone)

/-- **What a watcher sees of a legal log makes of the selected objects what the log makes of them.**
-/
theorem applies_seen (hsorted : SortedMap.Sorted records) (hfiled : Filed d records)
    {log : List Commit} (hlog : Legal d records log) :
    Applies d (view x d records) (seen x d log) (view x d (replay records log)) := by
  induction log generalizing records with
  | nil => exact .nil _
  | cons c log ih =>
    have hrest := ih (c.sorted_write hsorted) (Commit.filed_write hfiled hlog.1) hlog.2
    have hstep := step_view (x := x) hsorted hfiled hlog.1
    rw [seen, List.filterMap_cons]
    cases hevent : c.event? x d with
    | none =>
      rw [hevent] at hstep
      rw [← show view x d (c.write records) = view x d records from hstep]
      exact hrest
    | some e =>
      rw [hevent] at hstep
      exact .cons hstep.1 hstep.2 hrest

/-- The items of a list are the selected objects. -/
theorem ofItems_select {t : Table} (hsorted : SortedMap.Sorted t.records)
    (hfiled : Filed t.definition t.records) (x : Selection) :
    ofItems t.definition ((t.select x).map (·.2.object)) = view x t.definition t.records := by
  rw [ofItems, List.map_map, view]
  refine List.map_congr_left fun e he => ?_
  have hget := SortedMap.get?_of_mem hsorted (List.mem_filter.mp he).1
  rw [Function.comp_apply, Definition.keyOf_eq (hfiled e.1 e.2 hget).key_eq]

end Cache

/-! ## Lists and watches of a store -/

namespace Store

variable {s : Store} {log : List Commit} {i : Nat} {t : Table}

/-- A list answers if its fields are declared. -/
theorem act_list {kind : String} (hfind : s.find kind = .ok i) (ht : s.tables[i]? = some t)
    (scope : Scope) (m : Moment) {criteria : Criteria}
    (hdeclared : t.requireDeclared criteria = .ok ()) :
    (s.act (.call kind scope m (.request (.list criteria)))).1 =
      .answer (.ok (.listing ⟨(t.select ⟨criteria, scope⟩).map (·.2.object), s.version⟩)) := by
  have hlist : (s.focus t).list scope criteria =
      .ok ⟨(t.select ⟨criteria, scope⟩).map (·.2.object), s.version⟩ :=
    list_eq_ok_iff.mpr ⟨hdeclared, rfl⟩
  rw [act_call hfind ht]
  simp only [Work.serve, serve, hlist, Except.map]

/-- A watch from a version is opened, or the store is stopped, or what it missed is gone. -/
theorem act_watch {kind : String} (hfind : s.find kind = .ok i) (ht : s.tables[i]? = some t)
    (scope : Scope) (m : Moment) {criteria : Criteria}
    (hdeclared : t.requireDeclared criteria = .ok ()) (since : Version) (timeout : Option Nat) :
    (t.stopped = true ∧
      (s.act (.call kind scope m (.request (.watch criteria (some since) timeout)))).1 =
        .answer (.error .shuttingDown)) ∨
    (s.act (.call kind scope m (.request (.watch criteria (some since) timeout)))).1 =
      .answer (.error (.gone t.name since t.history.oldest)) ∨
    ∃ h, (s.act (.call kind scope m (.request (.watch criteria (some since) timeout)))).1 =
      .answer (.ok (.watching h)) := by
  rw [answer_watch hfind ht]
  cases hstopped : t.stopped with
  | true =>
    have ho : t.opening ⟨criteria, scope⟩ (some since) = .error .shuttingDown := by
      rw [Table.opening, hdeclared, Table.requireRunning, hstopped]
      rfl
    exact Or.inl ⟨rfl, by rw [ho]; rfl⟩
  | false =>
    rcases opening_since (x := ⟨criteria, scope⟩) hdeclared hstopped since with
      ⟨-, ho⟩ | ⟨-, events, ho⟩
    · exact Or.inr (Or.inl (by rw [ho]; rfl))
    · exact Or.inr (Or.inr ⟨_, by rw [ho]; rfl⟩)

theorem table_eq_ok {kind : String} (hfind : s.find kind = .ok i) (ht : s.tables[i]? = some t) :
    s.table kind = .ok t := by
  simp only [table, bind_eq_ok_iff]
  refine ⟨i, hfind, ?_⟩
  rw [ht]
  rfl

/-- The commits after the version of a store are those that come later. -/
theorem Follows.filter_later (hs : s.Follows log) {s' : Store} {later : List Commit}
    (hs' : s'.Follows (log ++ later)) :
    (log ++ later).filter (fun c => s.version < c.version) = later := by
  have hearly : log.filter (fun c => s.version < c.version) = [] :=
    List.filter_eq_nil_iff.mpr fun c hc => by
      simpa using hs.version_le hc
  have hlate : later.filter (fun c => s.version < c.version) = later :=
    List.filter_eq_self.mpr fun c hc => by
      simpa using hs.version_lt hs' hc
  rw [List.filter_append, hearly, hlate, List.nil_append]

/-- The events a watch sees of a run make of the items of a list what the run makes of them. -/
theorem Follows.applies_later (hs : s.Follows log) (ht : s.tables[i]? = some t) {s' : Store}
    {later : List Commit} (hs' : s'.Follows (log ++ later)) {t' : Table}
    (ht' : s'.tables[i]? = some t') (hdefinition : t'.definition = t.definition) (x : Selection) :
    Cache.Applies t.definition (Cache.ofItems t.definition ((t.select x).map (·.2.object)))
      (seen x t.definition (ofTable i later))
      (Cache.ofItems t.definition ((t'.select x).map (·.2.object))) := by
  have htable := hs.tables i t ht
  have htable' := hs'.tables i t' ht'
  have hlegal := htable'.legal
  rw [hdefinition, ofTable_append, legal_append, ← htable.records_eq] at hlegal
  have hend : Cache.ofItems t.definition ((t'.select x).map (·.2.object)) =
      Cache.view x t.definition t'.records := by
    rw [← hdefinition]
    exact Cache.ofItems_select htable'.sorted htable'.filed x
  rw [Cache.ofItems_select htable.sorted htable.filed, hend, htable'.records_eq, ofTable_append,
    replay_append, ← htable.records_eq]
  exact Cache.applies_seen htable.sorted htable.filed hlegal.2

/-- A watch that resumes from the version of a store and is open gives, with a list of that store,
the list it can be compared with. -/
theorem Follows.coherent (hs : s.Follows log) {kind : String} (hfind : s.find kind = .ok i)
    (ht : s.tables[i]? = some t) {scope : Scope} {criteria : Criteria}
    (hdeclared : t.requireDeclared criteria = .ok ()) {during : List Action} {s₁ s₂ : Store}
    {m : Moment} {timeout : Option Nat} {h : WatchHandle} (hs₁ : s₁ = s.run during)
    (hopened : s₁.act (.call kind scope m (.request (.watch criteria (some s.version) timeout))) =
      (.answer (.ok (.watching h)), s₂)) {after : List Action} (hkept : .dropWatch h ∉ after)
    (hopen : (s₂.run after).isOpen h = true) :
    ∃ l, (∀ m, ((s₂.run after).act (.call kind scope m (.request (.list criteria)))).1 =
        .answer (.ok (.listing l))) ∧
      Cache.Applies t.definition
        (Cache.ofItems t.definition ((t.select ⟨criteria, scope⟩).map (·.2.object)))
        (s₂.received h after) (Cache.ofItems t.definition l.items) := by
  subst hs₁
  have hfollows₁ := follows_run hs during
  have hfollows₂ := hfollows₁.act_watch kind scope m criteria (some s.version) timeout
  have hkinds₁ := sameKinds_run hs during
  have hkinds₂ := hkinds₁.trans (sameKinds_act hfollows₁
    (.call kind scope m (.request (.watch criteria (some s.version) timeout))))
  obtain ⟨j, t₁, hfind₁, ht₁, hreceived⟩ :=
    hfollows₁.received_eq (hs.version_le_run during) (congrArg Prod.fst hopened)
  obtain rfl := Except.ok.inj (hfind.symm.trans ((hkinds₁.find_eq kind).symm.trans hfind₁))
  rw [hopened] at hfollows₂ hkinds₂ hreceived
  have hend := follows_run hfollows₂ after
  have hkinds := hkinds₂.trans (sameKinds_run hfollows₂ after)
  rw [List.append_assoc] at hend
  obtain ⟨t₂, ht₂⟩ := hkinds.table_some ht
  have hdefinition₂ := hkinds.definition_eq ht ht₂
  refine ⟨_, fun m => act_list ((hkinds.find_eq kind).trans hfind) ht₂ scope m ?_, ?_⟩
  · rwa [Table.requireDeclared, hdefinition₂]
  · rw [hreceived _ rfl after hkept hopen, List.append_assoc, hs.filter_later hend,
      hkinds₁.definition_eq ht ht₁]
    exact hs.applies_later ht hend ht₂ hdefinition₂ _

/-- **A list and a watch from its version on give every later list.** The watch may be opened at any
later point; it is then opened, unless what it missed is gone or the store has been shut down. -/
theorem cache_coherent (catalog : Catalog) (limits : WatchLimits) (before during : List Action)
    {kind : String} {scope : Scope} {criteria : Criteria} {m m' : Moment} {timeout : Option Nat}
    {l : Listing} {s s₁ : Store} {watch : Action}
    (hs : s = (empty catalog limits).run before)
    (hlist : (s.act (.call kind scope m (.request (.list criteria)))).1 =
      .answer (.ok (.listing l)))
    (hs₁ : s₁ = s.run during)
    (hwatch : watch = .call kind scope m' (.request (.watch criteria (some l.version) timeout))) :
    l.version = s.version ∧ ∃ t, s.table kind = .ok t ∧
      ((∃ oldest, (s₁.act watch).1 = .answer (.error (.gone t.name l.version oldest))) ∨
        (.shutdown ∈ before ++ during ∧ (s₁.act watch).1 = .answer (.error .shuttingDown)) ∨
        ∃ h, (s₁.act watch).1 = .answer (.ok (.watching h)) ∧
          ∀ after, .dropWatch h ∉ after → ((s₁.act watch).2.run after).isOpen h = true →
            ∃ l', (∀ m'', (((s₁.act watch).2.run after).act
                (.call kind scope m'' (.request (.list criteria)))).1 =
                  .answer (.ok (.listing l'))) ∧
              Cache.Applies t.definition (Cache.ofItems t.definition l.items)
                ((s₁.act watch).2.received h after) (Cache.ofItems t.definition l'.items)) := by
  have hrun : s₁ = (empty catalog limits).run (before ++ during) := by rw [run_append, ← hs, hs₁]
  have hfollows := follows_reached catalog limits before
  rw [← hs] at hfollows
  obtain ⟨i, t, hfind, ht, hdeclared, rfl⟩ := act_listed hlist
  subst hs₁ hwatch
  have hkinds := sameKinds_run hfollows during
  obtain ⟨t₁, ht₁⟩ := hkinds.table_some ht
  have hdefinition := hkinds.definition_eq ht ht₁
  have hfind₁ := (hkinds.find_eq kind).trans hfind
  have hdeclared₁ : t₁.requireDeclared criteria = .ok () := by
    rwa [Table.requireDeclared, hdefinition]
  refine ⟨rfl, t, table_eq_ok hfind ht, ?_⟩
  rcases act_watch hfind₁ ht₁ scope m' hdeclared₁ s.version timeout with
    ⟨hstopped, hanswer⟩ | hanswer | ⟨h, hanswer⟩
  · refine Or.inr (Or.inl ⟨Classical.byContradiction fun hshutdown => ?_, hanswer⟩)
    have hrunning :=
      running_run (follows_empty catalog limits) (running_empty catalog limits) hshutdown
    rw [← hrun] at hrunning
    exact Bool.false_ne_true ((hrunning i t₁ ht₁).symm.trans hstopped)
  · refine Or.inl ⟨t₁.history.oldest, ?_⟩
    rw [Table.name, ← hdefinition]
    exact hanswer
  · refine Or.inr (Or.inr ⟨h, hanswer, fun after hkept hopen => ?_⟩)
    exact hfollows.coherent hfind ht hdeclared rfl (Prod.ext hanswer rfl) hkept hopen

theorem cache_coherent_configs :
    ∃ l t h l', ((configStore.run [createConfig "a"]).act (configCall (.list .all))).1 =
        .answer (.ok (.listing l)) ∧
      ((configStore.run [createConfig "a", createConfig "b"]).act (watchConfigs l.version)).1 =
        .answer (.ok (.watching h)) ∧
      Cache.Applies (Table.definition t) (Cache.ofItems t.definition l.items)
        (((configStore.run [createConfig "a", createConfig "b"]).act
          (watchConfigs l.version)).2.received h [createConfig "c"])
        (Cache.ofItems t.definition (Listing.items l')) := by
  have hlist : ∃ l, ((configStore.run [createConfig "a"]).act (configCall (.list .all))).1 =
      .answer (.ok (.listing l)) ∧ l.version = 1 := ⟨_, rfl, rfl⟩
  obtain ⟨l, hlist, hversion⟩ := hlist
  have hanswer : ((configStore.run [createConfig "a", createConfig "b"]).act
      (watchConfigs l.version)).1 = .answer (.ok (.watching ⟨"v1/ConfigMap", 0⟩)) := by
    rw [hversion]
    rfl
  obtain ⟨-, t, -, hwatch⟩ := cache_coherent configCatalog ⟨2, 1000, 2⟩ [createConfig "a"]
    [createConfig "b"] rfl hlist rfl (rfl : watchConfigs l.version = _)
  rcases hwatch with ⟨oldest, hgone⟩ | ⟨-, hstopped⟩ | ⟨h, hopened, hafter⟩
  · cases hgone.symm.trans hanswer
  · cases hstopped.symm.trans hanswer
  · have hreply := Except.ok.inj (Outcome.answer.inj (hopened.symm.trans hanswer))
    obtain rfl := Reply.watching.inj hreply
    obtain ⟨l', -, happlies⟩ := hafter [createConfig "c"] (by simp [createConfig, configCall]) (by
      rw [hversion]
      rfl)
    exact ⟨l, t, _, l', hlist, hanswer, happlies⟩

end Store

end ControlPlane
