import ControlPlane.Proofs.Decodable
import ControlPlane.Proofs.NamespaceBound
import ControlPlane.Proofs.StatusIsolation

/-!
# Typed clients of a namespace

A typed client of a namespace keeps to it by three means. It places what it writes in its namespace,
or refuses a document that names another one; it reads, patches and deletes by keys of its
namespace; and its lists, its watches and its deletions of a collection ask for its namespace by a
criterion. Each of them binds the request to the namespace.

What it gets are the documents of objects. A document names the namespace of its object, unless a
member of the data hides the metadata, and no object has such a member that was itself read from a
document.

* `Client.request_boundTo`: every request of the client is bound to its namespace.
* `Client.request_foreign`: a document that names another namespace is refused.
* `Kind.HasMetadata.ns?_decode`: the namespace that the document of an object names.
* `Client.StaysIn`, `Client.Watch.StaysIn`, `Client.Names`: what holds of the client's orders, of
  its streams and of the documents it gets.
* `Server.namespaced_client`: they hold after every use of a server.
-/

namespace ControlPlane

/-! ## The namespace of a document -/

/-- The namespace that a document names. -/
def Json.ns? (json : Json) : Option String :=
  ((json.member? "metadata").bind (·.member? "namespace")).bind Json.text?

/-- No member of the data hides the metadata. -/
def Object.Plain (o : Object) : Prop := SortedMap.get? o.data "metadata" = none

theorem Object.plain_of_decode {json : Json} {o : Object} (h : decode json = .ok o) : o.Plain :=
  (normal_of_decode h).metadata_none

/-- **Creations and replacements store plain objects**, if the objects that are brought are plain.
-/
theorem Object.lasting_plain :
    Object.Lasting (fun _ => Object.Plain) Object.Plain fun _ => True where
  created {t scope m o o' key} v ho _ h := by
    obtain ⟨-, -, -, rfl, -⟩ := Table.creation_eq_ok_iff.mp h
    rw [Object.Plain, Object.born, Scope.data_mark, Object.data_named]
    exact ho
  replaced {t scope o next expected x key r} v ho hr h := by
    obtain ⟨-, -, -, -, -, -, -, rfl⟩ := Table.revision_eq_ok_iff.mp h
    have hstatus {o : Object} (ho : o.Plain) (status : Option Json) : (o.setStatus status).Plain :=
      (SortedMap.get?_set _ _ _ _).trans ((if_neg (by decide)).trans ho)
    rw [Object.Plain, Object.succeeding, Scope.data_mark]
    cases x with
    | none =>
      rw [Table.composed]
      split
      · exact hstatus ho _
      · exact ho
    | some part =>
      cases part
      exact hstatus hr _
  patched _ h := by
    obtain ⟨strategic, document, happly⟩ := Patch.exists_applyDocument h
    obtain ⟨-, -, patched, -, hdecode⟩ := Patch.applyDocument_eq_ok_iff.mp happly
    exact Object.plain_of_decode hdecode

/-- The metadata of all objects are a member of the kind, whose members ascend. -/
structure Kind.HasMetadata (k : Kind) : Prop where
  names : Shape.Ascend k.fields
  mem : ∃ presence, (⟨"metadata", presence⟩, Schema.objectMeta) ∈ k.fields

theorem Kind.hasMetadata_known {k : Kind} (h : k ∈ Kind.known) : k.HasMetadata :=
  ⟨(regular_known h).ascend, .defaulted, (regular_known h).metadata⟩

/-- Metadata that are decoded name the namespace. -/
theorem Metadata.ns?_decode {m : Metadata} {ns : String} (hns : m.ns = some ns) {normal : Json}
    (h : Schema.objectMeta.decode? (.obj m.toMembers) = some normal) :
    normal.member? "namespace" = some (.str ns) := by
  obtain ⟨out, hout, rfl⟩ := Option.map_eq_some_iff.mp ((objectMeta_decode? _).symm.trans h)
  have hmem : (⟨"namespace", .optional⟩, .string) ∈ Schema.objectMeta.fields := by
    simp [Schema.objectMeta, Shape.fields, optional]
  have hgiven : Shape.given? m.toMembers "namespace" = some (.str ns) := by
    rw [Shape.given?, get?_toMembers]
    simp [parts, hns, List.lookup_cons, Json.isNull]
  have hget := Shape.get?_decodeFields? Shape.ascend_objectMeta hout hmem
  rw [hgiven] at hget
  exact hget

/-- **The document of a plain object names its namespace.** -/
theorem Kind.HasMetadata.ns?_decode {k : Kind} (hk : k.HasMetadata) {o : Object} (ho : o.Plain)
    {ns : String} (hns : o.metadata.ns = some ns) {document : Json}
    (h : k.decode? o.toJson = some document) : document.ns? = some ns := by
  have hgiven : Shape.given? o.toMembers "metadata" = some (.obj o.metadata.toMembers) := by
    have hget : SortedMap.get? o.toMembers "metadata" = some (.obj o.metadata.toMembers) := by
      rw [Object.get?_toMembers, ho]
      rfl
    rw [Shape.given?, hget]
    rfl
  rw [Object.toJson, Kind.decode?] at h
  split at h
  · obtain ⟨out, hout, rfl⟩ := Option.map_eq_some_iff.mp h
    obtain ⟨presence, hmem⟩ := hk.mem
    obtain ⟨normal, hnormal, hget⟩ := Shape.decode?_given? hk.names hout hmem hgiven
    have hmember : (k.typed out).member? "metadata" = some normal := by
      rw [Kind.typed, Json.member?, Json.members, SortedMap.get?_insert_of_ne _ _ (by decide),
        SortedMap.get?_insert_of_ne _ _ (by decide)]
      exact hget
    rw [Json.ns?, hmember, Option.bind_some, Metadata.ns?_decode hns hnormal]
    rfl
  · cases h

/-! ## What a client asks for -/

namespace Client

variable {c : Client} {ns : String} {s : Store} {m : Moment}

theorem encode_ns (hc : c.ns = some ns) {document : Json} {o : Object}
    (h : c.encode document = .ok o) : o.metadata.ns = some ns := by
  simp only [encode, bind_eq_ok_iff, hc] at h
  obtain ⟨o', -, h⟩ := h
  cases hother : o'.metadata.ns.filter (!·.isEmpty) with
  | none =>
    rw [hother] at h
    obtain rfl := pure_eq_ok_iff.mp h
    rfl
  | some other =>
    rw [hother] at h
    dsimp only at h
    split at h
    · next heq =>
      obtain rfl := pure_eq_ok_iff.mp h
      rw [(Option.filter_eq_some_iff.mp hother).1, heq]
    · cases h

/-- What a document is encoded as is what it decodes as, in a namespace if the client has one. -/
theorem encode_eq_ok {document : Json} {o : Object} (h : c.encode document = .ok o) :
    ∃ w, Object.decode document = .ok w ∧
      (o = w ∨ ∃ ns, o = { w with metadata := { w.metadata with ns := some ns } }) := by
  simp only [encode, bind_eq_ok_iff] at h
  obtain ⟨w, hdecode, h⟩ := h
  refine ⟨w, hdecode, ?_⟩
  split at h
  · exact Or.inl (pure_eq_ok_iff.mp h).symm
  · split at h
    · split at h
      · exact Or.inl (pure_eq_ok_iff.mp h).symm
      · cases h
    · exact Or.inr ⟨_, (pure_eq_ok_iff.mp h).symm⟩

theorem encode_plain {document : Json} {o : Object} (h : c.encode document = .ok o) : o.Plain := by
  obtain ⟨w, hdecode, ho⟩ := encode_eq_ok h
  have hplain : w.Plain := Object.plain_of_decode hdecode
  rcases ho with rfl | ⟨ns, rfl⟩
  · exact hplain
  · exact hplain

theorem encode_foreign (hc : c.ns = some ns) {document : Json} {o : Object}
    (hdecode : Object.decode document = .ok o) {other : String}
    (hother : o.metadata.ns = some other) (hempty : other ≠ "") (hne : other ≠ ns) :
    c.encode document = .error (.invalid (.otherNamespace other ns)) := by
  have hfilter : o.metadata.ns.filter (!·.isEmpty) = some other := by
    rw [hother, Option.filter_some]
    simp [hempty]
  simp only [encode, hdecode, hc, bind, Except.bind, hfilter, if_neg hne]
  rfl

theorem encodeAs_eq_ok {name : String} {document : Json} {o : Object}
    (h : c.encodeAs name document = .ok o) : c.encode document = .ok o := by
  simp only [encodeAs, bind_eq_ok_iff] at h
  obtain ⟨o', hencode, h⟩ := h
  split at h
  · obtain rfl := pure_eq_ok_iff.mp h
    exact hencode
  · cases h

theorem criteria_eq_ok_iff {labels fields : Option String} {criteria : Criteria} :
    c.criteria labels fields = .ok criteria ↔
      ∃ l f, labels.mapM LabelSelector.parse = .ok l ∧ fields.mapM FieldSelector.parse = .ok f ∧
        criteria = ⟨none, c.ns, l, f⟩ := by
  simp only [Client.criteria, Criteria.ofQuery, bind_eq_ok_iff, pure_eq_ok_iff]
  constructor
  · rintro ⟨l, hl, f, hf, rfl⟩
    exact ⟨l, f, hl, hf, rfl⟩
  · rintro ⟨l, f, hl, hf, rfl⟩
    exact ⟨l, hl, f, hf, rfl⟩

/-- **Every request of a client is bound to its namespace.** -/
theorem request_boundTo (hc : c.ns = some ns) {o : Order} {r : Store.Request}
    (h : c.request o = .ok r) : r.BoundTo ns := by
  have hcriteria {labels fields : Option String} {criteria : Criteria}
      (h : c.criteria labels fields = .ok criteria) : criteria.ns = some ns := by
    obtain ⟨_, _, -, -, rfl⟩ := criteria_eq_ok_iff.mp h
    exact hc
  cases o with
  | create document =>
    obtain ⟨o, ho, rfl⟩ := map_eq_ok_iff.mp h
    exact encode_ns hc ho
  | get name => cases h; exact hc
  | find name => cases h; exact hc
  | list labels fields =>
    obtain ⟨criteria, hok, rfl⟩ := map_eq_ok_iff.mp h
    exact hcriteria hok
  | watch since timeout labels fields =>
    simp only [request, bind_eq_ok_iff, pure_eq_ok_iff] at h
    obtain ⟨criteria, hok, _, -, rfl⟩ := h
    exact hcriteria hok
  | replace name document =>
    obtain ⟨o, ho, rfl⟩ := map_eq_ok_iff.mp h
    exact encode_ns hc (encodeAs_eq_ok ho)
  | replaceStatus name document =>
    obtain ⟨o, ho, rfl⟩ := map_eq_ok_iff.mp h
    exact encode_ns hc (encodeAs_eq_ok ho)
  | patch name p subresource => cases h; exact hc
  | delete name => cases h; exact hc
  | deleteCollection labels fields =>
    obtain ⟨criteria, hok, rfl⟩ := map_eq_ok_iff.mp h
    exact hcriteria hok

/-- The document of an object that the order creates or replaces. -/
def Order.document? : Order → Option Json
  | .create document => some document
  | .replace _ document => some document
  | .replaceStatus _ document => some document
  | _ => none

/-- A client brings to a store what the document of its order is encoded as, if it has one. -/
theorem actions_brings {Brought : Object → Prop} {Timely : Moment → Prop} {o : Order}
    (hbrought : ∀ document w, o.document? = some document → c.encode document = .ok w → Brought w)
    (htimely : ∀ document, o = .create document → Timely m) :
    ∀ a ∈ c.actions m o, a.Brings Brought Timely := by
  intro a ha
  obtain ⟨r, hr, rfl⟩ := mem_actions.mp ha
  cases o with
  | create document =>
    obtain ⟨w, hw, rfl⟩ := map_eq_ok_iff.mp hr
    exact ⟨hbrought document w rfl hw, htimely document rfl⟩
  | replace name document =>
    obtain ⟨w, hw, rfl⟩ := map_eq_ok_iff.mp hr
    exact hbrought document w rfl (encodeAs_eq_ok hw)
  | replaceStatus name document =>
    obtain ⟨w, hw, rfl⟩ := map_eq_ok_iff.mp hr
    exact hbrought document w rfl (encodeAs_eq_ok hw)
  | watch since timeout labels fields =>
    simp only [request, bind_eq_ok_iff, pure_eq_ok_iff] at hr
    obtain ⟨_, -, _, -, rfl⟩ := hr
    trivial
  | get name => cases hr; trivial
  | find name => cases hr; trivial
  | patch name p subresource => cases hr; trivial
  | delete name => cases hr; trivial
  | _ =>
    obtain ⟨_, -, rfl⟩ := map_eq_ok_iff.mp hr
    trivial

/-- What a client brings to a store is plain. -/
theorem actions_plain (c : Client) (m : Moment) (o : Order) :
    ∀ a ∈ c.actions m o, a.Brings Object.Plain fun _ => True :=
  actions_brings (fun _ _ _ h => encode_plain h) fun _ _ => trivial

/-- **A document that names another namespace is refused**, before it reaches the store. -/
theorem request_foreign (hc : c.ns = some ns) {o : Order} {document : Json} {object : Object}
    (ho : o.document? = some document) (hdecode : Object.decode document = .ok object)
    {other : String} (hother : object.metadata.ns = some other) (hempty : other ≠ "")
    (hne : other ≠ ns) : c.request o = .error (.invalid (.otherNamespace other ns)) := by
  have hencode := encode_foreign hc hdecode hother hempty hne
  have hencodeAs (name : String) :
      c.encodeAs name document = .error (.invalid (.otherNamespace other ns)) := by
    simp only [encodeAs, hencode, bind, Except.bind]
  cases o with
  | create document =>
    obtain rfl := Option.some.inj ho
    rw [request, hencode]
    rfl
  | replace name document =>
    obtain rfl := Option.some.inj ho
    rw [request, hencodeAs]
    rfl
  | replaceStatus name document =>
    obtain rfl := Option.some.inj ho
    rw [request, hencodeAs]
    rfl
  | _ => cases ho

/-! ## What a client gets -/

/-- The documents of an answer. -/
def Answer.documents : Answer → List Json
  | .object document => [document]
  | .absent => []
  | .list document => ((document.member? "items").bind Json.items?).getD []
  | .watching _ => []

theorem documents_listJson (d : Definition) (version : Version) (items : List Json) :
    (Answer.list (d.listJson version items)).documents = items := by
  have hitems : (d.listJson version items).member? "items" = some (.arr items) := by
    simp [Definition.listJson, Json.ofMembers, Json.member?, Json.members, SortedMap.ofEntries]
  rw [Answer.documents, hitems]
  rfl

theorem read_documents {version : Version} {reply : Store.Reply} {answer : Answer}
    (h : c.read version reply = .ok answer) :
    ∀ document ∈ answer.documents, ∃ o ∈ reply.objects, c.resource.decode o = .ok document := by
  have hlist {version : Version} {objects : List Object} {answer : Answer}
      (h : (c.listDocument version objects).map .list = .ok answer) :
      ∀ document ∈ answer.documents, ∃ o ∈ objects, c.resource.decode o = .ok document := by
    obtain ⟨json, hjson, rfl⟩ := map_eq_ok_iff.mp h
    simp only [listDocument, bind_eq_ok_iff, pure_eq_ok_iff] at hjson
    obtain ⟨items, hitems, rfl⟩ := hjson
    rw [documents_listJson]
    exact exists_of_mem_mapM_ok hitems
  cases reply with
  | object o =>
    obtain ⟨json, hjson, rfl⟩ := map_eq_ok_iff.mp h
    intro document hdocument
    exact ⟨o, List.mem_cons_self, List.mem_singleton.mp hdocument ▸ hjson⟩
  | listing l => exact hlist h
  | tombstones objects => exact hlist h
  | watching handle =>
    obtain rfl := Except.ok.inj h
    exact List.forall_mem_nil _

theorem conclude_eq_ok {o : Order} {result : Except Error Answer} {answer : Answer}
    (h : o.conclude result = .ok answer) : result = .ok answer ∨ answer = .absent := by
  cases result with
  | ok answer' => exact Or.inl ((conclude_ok o answer').symm.trans h)
  | error e =>
    cases o with
    | find name =>
      simp only [Order.conclude] at h
      split at h
      · exact Or.inr (Except.ok.inj h).symm
      · cases h
    | _ => cases h

/-- The documents that a client gets are those of objects of the store's reply. -/
theorem carryOut_documents {o : Order} {answer : Answer} (h : (c.carryOut s m o).1 = .ok answer)
    {document : Json} (hdocument : document ∈ answer.documents) :
    ∃ r reply object, c.request o = .ok r ∧ (s.perform c.kind c.view.scope m r).1 = .ok reply ∧
      object ∈ reply.objects ∧ c.resource.decode object = .ok document := by
  cases hr : c.request o with
  | error e =>
    rw [carryOut_refused hr] at h
    cases h
  | ok r =>
    rw [carryOut_requested hr] at h
    rcases conclude_eq_ok h with hread | rfl
    · obtain ⟨reply, hreply, hread⟩ := bind_eq_ok_iff.mp hread
      obtain ⟨object, hobject, hdecode⟩ := read_documents hread document hdocument
      exact ⟨r, reply, object, rfl, hreply, hobject, hdecode⟩
    · cases hdocument

/-- An event that is taken from a stream is the document of one that is taken from its watch. -/
theorem Watch.poll_event {w : Client.Watch} {now : Nat} {type : EventType} {document : Json}
    (h : (w.poll s now).1 = .event type document) :
    ∃ e, (s.poll now w.handle).1 = .event e ∧ w.resource.decode e.object = .ok document := by
  unfold Watch.poll at h
  split at h
  · cases h
  · generalize s.poll now w.handle = p at h ⊢
    obtain ⟨item, s'⟩ := p
    cases item with
    | event e =>
      refine ⟨e, rfl, ?_⟩
      dsimp only at h
      cases hdecode : w.resource.decode e.object with
      | error e =>
        rw [hdecode] at h
        cases h
      | ok json =>
        rw [hdecode] at h
        cases h
        rfl
    | _ => cases h

/-! ## What a client of a namespace can rely on -/

/-- The view of the client shows the object, which is in the namespace, and the selectors select it.
-/
def selects (c : Client) (d : Definition) (ns : String) (l : Option LabelSelector)
    (f : Option FieldSelector) (o : Object) : Bool :=
  c.view.scope.contains o && o.metadata.ns == some ns && l.all (·.matches o.labels) &&
    f.all (·.matches (d.subject o).resolve)

theorem selects_eq (c : Client) (d : Definition) (ns : String) (l : Option LabelSelector)
    (f : Option FieldSelector) (o : Object) :
    (⟨⟨none, some ns, l, f⟩, c.view.scope⟩ : Selection).selects d o = c.selects d ns l f o := by
  rw [Selection.selects, Criteria.matches, Option.all_none, Bool.true_and, ← Bool.and_assoc,
    ← Bool.and_assoc]
  rfl

theorem ns_of_selects {d : Definition} {l : Option LabelSelector} {f : Option FieldSelector}
    {o : Object} (h : c.selects d ns l f o = true) : o.metadata.ns = some ns := by
  rw [← selects_eq] at h
  exact Selection.ns_of_selects rfl h

/-- The records that the view of a client shows in its namespace and selectors select. -/
def selected (c : Client) (t : Table) (ns : String) (l : Option LabelSelector)
    (f : Option FieldSelector) : List (Key × Record) :=
  t.records.filter fun e => c.selects t.definition ns l f e.2.object

theorem select_eq (c : Client) (t : Table) (ns : String) (l : Option LabelSelector)
    (f : Option FieldSelector) :
    t.select ⟨⟨none, some ns, l, f⟩, c.view.scope⟩ = c.selected t ns l f :=
  List.filter_congr fun e _ => c.selects_eq t.definition ns l f e.2.object

/-- What a client of a namespace can rely on when a stream is opened that selects by some selectors,
whatever happens to the store after that. -/
structure Watch.StaysIn (w : Client.Watch) (c : Client) (s : Store) (i : Nat) (d : Definition)
    (ns : String) (l : Option LabelSelector) (f : Option FieldSelector) : Prop where
  /-- As long as the watch is there, it selects what the client selects. -/
  selects : ∀ after : List Store.Action, (∃ t, (s.run after).Dropped i w.handle t) ∨
    ∃ t w', (s.run after).Watches i w.handle t w' ∧
      ∀ o, w'.selection.selects d o = c.selects d ns l f o
  /-- What is taken from the stream is the document of an object that the client selects. -/
  taken : ∀ (after : List Store.Action) (now : Nat) (type : EventType) (document : Json),
    (w.poll (s.run after) now).1 = .event type document →
    ∃ object : Object, c.selects d ns l f object = true ∧
      c.resource.decode object = .ok document

/-- What a client of a namespace can rely on, if it addresses the table of a namespaced kind. -/
structure StaysIn (c : Client) (s : Store) (i : Nat) (d : Definition) (ns : String) : Prop where
  /-- Whatever an order commits is at a key of the namespace. -/
  commits : ∀ (m : Moment) (o : Order), ∀ k ∈ s.log (c.actions m o), k.In i ns
  /-- Every document of an answer is that of an object of the namespace. -/
  answered : ∀ (m : Moment) (o : Order) (answer : Answer), (c.carryOut s m o).1 = .ok answer →
    ∀ document ∈ answer.documents, ∃ object : Object, object.metadata.ns = some ns ∧
      c.resource.decode object = .ok document
  /-- A document that names another namespace is refused, and nothing changes. -/
  refused : ∀ (m : Moment) (o : Order) (document : Json) (object : Object) (other : String),
    o.document? = some document → Object.decode document = .ok object →
    object.metadata.ns = some other → other ≠ "" → other ≠ ns →
    c.carryOut s m o = (.error (.invalid (.otherNamespace other ns)), s)
  /-- A list has the objects that the client selects, no more and no fewer. -/
  listed : ∀ (m : Moment) (labels fields : Option String) (l : Option LabelSelector)
    (f : Option FieldSelector) (t : Table), s.tables[i]? = some t →
    labels.mapM LabelSelector.parse = .ok l → fields.mapM FieldSelector.parse = .ok f →
    t.requireDeclared ⟨none, some ns, l, f⟩ = .ok () →
    (c.carryOut s m (.list labels fields)).1 =
      (((c.selected t ns l f).map (·.2.object)).mapM c.resource.decode).map fun items =>
        .list (c.definition.listJson s.version items)
  /-- A watch has the events of the objects that the client selects. Without a version it begins
  with those that are there. -/
  watched : ∀ (m : Moment) (since : String) (timeout : Option Nat) (labels fields : Option String)
    (w : Watch), (c.carryOut s m (.watch since timeout labels fields)).1 = .ok (.watching w) →
    ∃ l f t t' w', labels.mapM LabelSelector.parse = .ok l ∧
      fields.mapM FieldSelector.parse = .ok f ∧ s.tables[i]? = some t ∧
      (c.carryOut s m (.watch since timeout labels fields)).2.Watches i w.handle t' w' ∧
      (since = "" → w'.held.Perm
        ((c.selected t ns l f).map fun e => ⟨.added, e.2.object, e.2.version⟩)) ∧
      w.StaysIn c (c.carryOut s m (.watch since timeout labels fields)).2 i d ns l f

/-- Every document that a client gets names the namespace, and so does every event of its
streams. -/
structure Names (c : Client) (s : Store) (ns : String) : Prop where
  answered : ∀ (m : Moment) (o : Order) (answer : Answer), (c.carryOut s m o).1 = .ok answer →
    ∀ document ∈ answer.documents, document.ns? = some ns
  taken : ∀ (m : Moment) (since : String) (timeout : Option Nat) (labels fields : Option String)
    (w : Watch), (c.carryOut s m (.watch since timeout labels fields)).1 = .ok (.watching w) →
    ∀ after : List Store.Action, (∀ a ∈ after, a.Brings Object.Plain fun _ => True) →
    ∀ (now : Nat) (type : EventType) (document : Json),
      (w.poll ((c.carryOut s m (.watch since timeout labels fields)).2.run after) now).1 =
        .event type document → document.ns? = some ns

end Client

/-! ## Stores -/

namespace Store

/-- Every object has a property that says nothing. -/
theorem lasting_true :
    Object.Lasting (fun _ _ => True) (fun _ => True) fun _ => True where
  created _ _ _ _ := trivial
  replaced _ _ _ _ := trivial
  patched _ _ := trivial

theorem Action.brings_true (a : Action) : a.Brings (fun _ => True) fun _ => True := by
  cases a with
  | call kind scope m w =>
    cases w with
    | writeBack o read x => trivial
    | request r =>
      cases r with
      | create o => exact ⟨trivial, trivial⟩
      | _ => trivial
  | _ => trivial

variable {catalog : Catalog} {limits : WatchLimits} {actions : List Action} {s : Store}
  {log : List Commit} {i : Nat} {d : Definition} {c : Client} {ns : String}

/-- **A list has the objects that the client selects.** -/
theorem listed_selected (hc : c.ns = some ns) (hfind : s.find c.kind = .ok i) {t : Table}
    (ht : s.tables[i]? = some t) (m : Moment) {labels fields : Option String}
    {l : Option LabelSelector} {f : Option FieldSelector}
    (hl : labels.mapM LabelSelector.parse = .ok l) (hf : fields.mapM FieldSelector.parse = .ok f)
    (hdeclared : t.requireDeclared ⟨none, some ns, l, f⟩ = .ok ()) :
    (c.carryOut s m (.list labels fields)).1 =
      (((c.selected t ns l f).map (·.2.object)).mapM c.resource.decode).map fun items =>
        .list (c.definition.listJson s.version items) := by
  have hcriteria : c.criteria labels fields = .ok ⟨none, some ns, l, f⟩ :=
    Client.criteria_eq_ok_iff.mpr ⟨l, f, hl, hf, by rw [hc]⟩
  have hrequest : c.request (.list labels fields) = .ok (.list ⟨none, some ns, l, f⟩) := by
    rw [Client.request, hcriteria]
    rfl
  have hlist : (s.focus t).list c.view.scope ⟨none, some ns, l, f⟩ =
      .ok ⟨(c.selected t ns l f).map (·.2.object), s.version⟩ := by
    rw [list_eq_ok_iff, ← c.select_eq]
    exact ⟨hdeclared, rfl⟩
  have hperform : (s.perform c.kind c.view.scope m (.list ⟨none, some ns, l, f⟩)).1 =
      .ok (.listing ⟨(c.selected t ns l f).map (·.2.object), s.version⟩) := by
    simp only [perform, onKind, hfind, ht, serve, hlist]
    rfl
  rw [Client.carryOut_requested hrequest, hperform]
  simp only [Client.Order.conclude, Except.bind, Client.read, Client.listDocument, bind, pure,
    Except.pure]
  cases ((c.selected t ns l f).map (·.2.object)).mapM c.resource.decode <;> rfl

/-- A stream on a watch that selects what the client selects. -/
theorem Watches.staysIn (hs : s = (empty catalog limits).run actions) {w : Client.Watch}
    (hresource : w.resource = c.resource) {t : Table} {w' : Watch} {l : Option LabelSelector}
    {f : Option FieldSelector} (hw : s.Watches i w.handle t w')
    (hselection : w'.selection = ⟨⟨none, some ns, l, f⟩, c.view.scope⟩) :
    w.StaysIn c s i t.definition ns l f := by
  have hfollows := hs ▸ follows_reached catalog limits actions
  refine ⟨?_, ?_⟩
  · intro after
    rcases hw.run hfollows after with hdropped | ⟨t', inputs, hwatches⟩
    · exact Or.inl hdropped
    · refine Or.inr ⟨t', _, hwatches, fun o => ?_⟩
      rw [Watch.after_selection, hselection, c.selects_eq]
  · intro after now type document hpoll
    obtain ⟨e, hevent, hdecode⟩ := Client.Watch.poll_event hpoll
    have hholds := holds_run lasting_true (fun _ _ _ _ => trivial) catalog limits
      fun a (_ : a ∈ actions ++ after) => a.brings_true
    rw [run_append, ← hs] at hholds
    obtain ⟨hselects, -⟩ := hw.taken hfollows hholds hevent
    rw [hselection, c.selects_eq] at hselects
    exact ⟨e.object, hselects, hresource ▸ hdecode⟩

/-- A client of a namespace opens a watch that selects what the client selects. -/
theorem opened_selected (hs : s.Follows log) (hc : c.ns = some ns) (hd : s.Namespaced c.kind i d)
    {m : Moment} {since : String} {timeout : Option Nat} {labels fields : Option String}
    {w : Client.Watch}
    (h : (c.carryOut s m (.watch since timeout labels fields)).1 = .ok (.watching w)) :
    ∃ l f t t' w', labels.mapM LabelSelector.parse = .ok l ∧
      fields.mapM FieldSelector.parse = .ok f ∧ s.tables[i]? = some t ∧ t.definition = d ∧
      (c.carryOut s m (.watch since timeout labels fields)).2.Watches i w.handle t' w' ∧
      t'.definition = d ∧ w.resource = c.resource ∧
      w'.selection = ⟨⟨none, some ns, l, f⟩, c.view.scope⟩ ∧
      (since = "" → w'.held = t.snapshot ⟨⟨none, some ns, l, f⟩, c.view.scope⟩) := by
  obtain ⟨criteria, since', hcriteria, hrequest, hopen, hresource, -⟩ := Client.carryOut_opened h
  obtain ⟨l, f, hl, hf, rfl⟩ := Client.criteria_eq_ok_iff.mp hcriteria
  rw [hc] at hrequest hopen
  obtain ⟨i', t, events, hfind, ht, hopening, hwatches⟩ :=
    act_opened hs (congrArg Outcome.answer hopen)
  obtain rfl := Except.ok.inj (hd.find_eq.symm.trans hfind)
  obtain ⟨t₀, ht₀, hdefinition⟩ := hd.table
  obtain rfl := Option.some.inj (ht.symm.trans ht₀)
  rw [Client.carryOut_requested hrequest]
  refine ⟨l, f, t, _, _, hl, hf, ht, hdefinition, hwatches, hdefinition, hresource, rfl, ?_⟩
  rintro rfl
  -- Without a version, a watch begins with what is there.
  simp only [Client.request, bind_eq_ok_iff, pure_eq_ok_iff] at hrequest
  obtain ⟨_, -, _, hparsed, hwatch⟩ := hrequest
  obtain ⟨-, rfl, -⟩ := Request.watch.inj hwatch
  obtain rfl := Except.ok.inj hparsed
  obtain ⟨-, -, hinitial⟩ := opening_eq_ok_iff.mp hopening
  obtain rfl := Except.ok.inj hinitial
  exact List.append_nil _

/-- **What a client of a namespace can rely on**, in every store that can be reached. -/
theorem staysIn_run (hs : s = (empty catalog limits).run actions) (hc : c.ns = some ns)
    (hd : s.Namespaced c.kind i d) : c.StaysIn s i d ns := by
  have hfollows := hs ▸ follows_reached catalog limits actions
  refine ⟨?_, ?_, ?_, ?_, ?_⟩
  · intro m o
    apply hd.log_in hfollows
    intro a ha
    obtain ⟨r, hr, rfl⟩ := Client.mem_actions.mp ha
    exact ⟨rfl, Client.request_boundTo hc hr⟩
  · intro m o answer hanswer document hdocument
    obtain ⟨r, reply, object, hr, hreply, hobject, hdecode⟩ :=
      Client.carryOut_documents hanswer hdocument
    exact ⟨object, hd.answered hfollows (Client.request_boundTo hc hr) hreply object hobject,
      hdecode⟩
  · intro m o document object other ho hdecode hother hempty hne
    exact Client.carryOut_refused (Client.request_foreign hc ho hdecode hother hempty hne) s m
  · intro m labels fields l f t ht hl hf hdeclared
    exact listed_selected hc hd.find_eq ht m hl hf hdeclared
  · intro m since timeout labels fields w hw
    obtain ⟨l, f, t, t', w', hl, hf, ht, rfl, hwatches, hdefinition, hresource, hselection,
      hheld⟩ := opened_selected hfollows hc hd hw
    have hstays := hwatches.staysIn (Client.carryOut_reached hs c m _) hresource hselection
    rw [hdefinition] at hstays
    refine ⟨l, f, t, t', w', hl, hf, ht, hwatches, ?_, hstays⟩
    intro hsince
    rw [hheld hsince, ← c.select_eq]
    exact snapshot_perm t _

/-- **Every document that a client gets names its namespace**, if the objects that were brought to
the store are plain. -/
theorem names_run (hs : s = (empty catalog limits).run actions)
    (hactions : ∀ a ∈ actions, a.Brings Object.Plain fun _ => True) (hc : c.ns = some ns)
    (hd : s.Namespaced c.kind i d) (hdecode : c.resource.decode? = d.kind.decode?)
    (hmetadata : d.kind.HasMetadata) : c.Names s ns := by
  have hfollows := hs ▸ follows_reached catalog limits actions
  have hstamped (d : Definition) (o : Object) (v : Version) (ho : o.Plain) :
      (o.stamped v).Plain := ho
  have names {object : Object} {document : Json} (hplain : object.Plain)
      (hns : object.metadata.ns = some ns) (h : c.resource.decode object = .ok document) :
      document.ns? = some ns := by
    apply hmetadata.ns?_decode hplain hns
    rw [Resource.decode, hdecode] at h
    split at h
    · next hjson => exact Except.ok.inj h ▸ hjson
    · cases h
  refine ⟨?_, ?_⟩
  · intro m o answer hanswer document hdocument
    obtain ⟨r, reply, object, hr, hreply, hobject, hjson⟩ :=
      Client.carryOut_documents hanswer hdocument
    have hholds := hs ▸ holds_run Object.lasting_plain hstamped catalog limits hactions
    have hbrings : (Work.request r).Brings Object.Plain (fun _ => True) m :=
      c.actions_plain m o _ (Client.mem_actions.mpr ⟨r, hr, rfl⟩)
    obtain ⟨i', t, -, -, hplain⟩ := hholds.answered Object.lasting_plain hstamped hfollows hbrings
      (congrArg Outcome.answer hreply)
    exact names (hplain object hobject)
      (hd.answered hfollows (Client.request_boundTo hc hr) hreply object hobject) hjson
  · intro m since timeout labels fields w hw after hafter now type document hpoll
    obtain ⟨e, hevent, hjson⟩ := Client.Watch.poll_event hpoll
    obtain ⟨l, f, t, t', w', -, -, -, -, hwatches, -, hresource, hselection, -⟩ :=
      opened_selected hfollows hc hd hw
    have hrun := Client.carryOut_reached hs c m (.watch since timeout labels fields)
    have hbrings : ∀ a ∈ (actions ++ c.actions m (.watch since timeout labels fields)) ++ after,
        a.Brings Object.Plain fun _ => True := by
      rw [List.forall_mem_append, List.forall_mem_append]
      exact ⟨⟨hactions, c.actions_plain m _⟩, hafter⟩
    have hholds := holds_run Object.lasting_plain hstamped catalog limits hbrings
    rw [run_append, ← hrun] at hholds
    obtain ⟨hselects, hplain⟩ :=
      hwatches.taken (hrun ▸ follows_reached catalog limits _) hholds hevent
    rw [hselection, c.selects_eq] at hselects
    exact names hplain (Client.ns_of_selects hselects) (hresource ▸ hjson)

end Store

/-! ## Servers -/

namespace Server

/-- The use is an order to the client, or that an item is taken from a stream. -/
def Use.By (c : Client) : Use → Prop
  | .act _ => False
  | .order c' _ _ => c' = c
  | .next _ _ => True

/-- What the use brings to the store is plain, unless a client brings it, which always brings what
is plain. -/
def Use.Plain : Use → Prop
  | .act (.store a) => a.Brings Object.Plain fun _ => True
  | _ => True

theorem Use.actions_of_next (w : Client.Watch) (s : Store) (now : Nat) :
    ∀ a ∈ w.actions s now, a = .poll now w.handle ∨ a = .dropWatch w.handle := by
  intro a ha
  unfold Client.Watch.actions at ha
  split at ha
  · cases ha
  · rcases List.mem_cons.mp ha with rfl | ha
    · exact Or.inl rfl
    · split at ha
      · split at ha
        · cases ha
        · exact Or.inr (List.mem_singleton.mp ha)
      · cases ha

/-- What holds of the actions of every use holds of those of all of them. -/
theorem forall_actions {P : Store.Action → Prop} {us : List Use}
    (h : ∀ u ∈ us, ∀ s : Store, ∀ a ∈ u.actions s, P a) (s : Server) : ∀ a ∈ s.actions us, P a := by
  induction us generalizing s with
  | nil =>
    intro a ha
    cases ha
  | cons u us ih =>
    rw [List.forall_mem_cons] at h
    intro a ha
    rcases List.mem_append.mp ha with ha | ha
    · exact h.1 s.store a ha
    · exact ih h.2 (s.use u) a ha

theorem Use.By.boundTo {c : Client} {ns : String} (hc : c.ns = some ns) {u : Use} (hu : u.By c)
    (s : Store) : ∀ a ∈ u.actions s, a.BoundTo c.kind ns := by
  intro a ha
  cases u with
  | act a' => exact hu.elim
  | order c' m o =>
    obtain rfl := hu
    obtain ⟨r, hr, rfl⟩ := Client.mem_actions.mp ha
    exact ⟨rfl, Client.request_boundTo hc hr⟩
  | next w now => rcases actions_of_next w s now a ha with rfl | rfl <;> trivial

theorem Use.Plain.brings {u : Use} (hu : u.Plain) (s : Store) :
    ∀ a ∈ u.actions s, a.Brings Object.Plain fun _ => True := by
  intro a ha
  cases u with
  | act a' =>
    cases a' with
    | addView name namespaces => cases ha
    | store a' =>
      obtain rfl := List.mem_singleton.mp ha
      exact hu
  | order c m o => exact c.actions_plain m o a ha
  | next w now => rcases actions_of_next w s now a ha with rfl | rfl <;> trivial

/-- **A client of a namespace stays in it.** On every server, however it was used before, and for
every client of a namespace that addresses the table of a namespaced kind:

* whatever an order does, it does at keys of the namespace; so a run of orders to the client leaves
  every other record of every table as it was;
* whatever the client answers or its streams yield is the document of an object of the namespace;
* an order to create or to replace an object is refused if its document names another namespace;
* lists and watches select every object of the namespace that the view shows and the selectors
  select.

If the type of the client is that of the table, and nothing was brought to the store whose data hide
its metadata, then every document that it gives names the namespace. -/
theorem namespaced_client (catalog : Catalog) (limits : WatchLimits) (x : ViewScheme)
    (views : List (String × Option (List String))) (before : List Use) {s : Server}
    (hs : s = (start catalog limits x views).uses before) {c : Client} {ns : String}
    (hc : c.ns = some ns) {i : Nat} {d : Definition} (hd : s.store.Namespaced c.kind i d) :
    c.StaysIn s.store i d ns ∧
    (∀ after : List Use, (∀ u ∈ after, u.By c) →
      (∀ k ∈ s.store.log (s.actions after), k.In i ns) ∧
      ∀ (j : Nat) (t t' : Table) (key : Key), s.store.tables[j]? = some t →
        (s.uses after).store.tables[j]? = some t' → (j ≠ i ∨ key.ns ≠ some ns) →
        SortedMap.get? t'.records key = SortedMap.get? t.records key) ∧
    (c.resource.decode? = d.kind.decode? → d.kind.HasMetadata → (∀ u ∈ before, u.Plain) →
      c.Names s.store ns) := by
  have hrun : s.store = (Store.empty catalog limits).run
      ((start catalog limits x views).actions before) :=
    hs ▸ uses_start catalog limits x views before
  have hfollows := hrun ▸ Store.follows_reached catalog limits _
  refine ⟨Store.staysIn_run hrun hc hd, ?_, ?_⟩
  · intro after hafter
    have hbound : ∀ a ∈ s.actions after, a.BoundTo c.kind ns :=
      forall_actions (fun u hu => (hafter u hu).boundTo hc) s
    refine ⟨hd.log_in hfollows hbound, ?_⟩
    intro j t t' key ht ht' houtside
    rw [uses_store] at ht'
    exact hd.untouched hfollows hbound ht ht' houtside
  · intro hdecode hmetadata hplain
    exact Store.names_run hrun (forall_actions (fun u hu => (hplain u hu).brings) _) hc hd hdecode
      hmetadata

/-- The creation of a config map in a namespace. -/
def createConfigIn (ns : String) : Use :=
  .act (.store (Store.configCall
    (.create ⟨none, { Metadata.empty with name := some "a", ns := some ns }, []⟩)))

/-- A server with a config map in each of two namespaces. -/
def twoNamespaces : Server :=
  (start Client.configCatalog ⟨2, 1000, 2⟩ .standard []).uses
    [createConfigIn "default", createConfigIn "other"]

/-- The client of one of the namespaces lists one config map, and it may not create one in the
other. -/
theorem namespaced_client_configs :
    ∃ t document, twoNamespaces.store.tables[0]? = some t ∧ t.records.length = 2 ∧
      (Client.configClient.carryOut twoNamespaces.store ⟨0, ⟨2024, 1, 1, 0, 0, 0, 0⟩, "u", "s"⟩
        (.list none none)).1 = .ok (.list document) ∧
      (Client.Answer.list document).documents.length = 1 ∧
      Client.configClient.carryOut twoNamespaces.store ⟨0, ⟨2024, 1, 1, 0, 0, 0, 0⟩, "u", "s"⟩
        (.create (.obj [("metadata", .obj [("name", .str "b"), ("namespace", .str "other")])])) =
          (.error (.invalid (.otherNamespace "other" "default")), twoNamespaces.store) ∧
      Client.configClient.StaysIn twoNamespaces.store 0 (.ofKind Schema.configMap) "default" ∧
      Client.configClient.Names twoNamespaces.store "default" := by
  obtain ⟨hstays, -, hnames⟩ := namespaced_client Client.configCatalog ⟨2, 1000, 2⟩ .standard []
    [createConfigIn "default", createConfigIn "other"] (s := twoNamespaces) rfl
    (c := Client.configClient) rfl (i := 0) (d := .ofKind Schema.configMap)
    ⟨rfl, rfl, rfl⟩
  have hmetadata : (Definition.ofKind Schema.configMap).kind.HasMetadata :=
    Kind.hasMetadata_known (by simp [Kind.known, Definition.ofKind])
  have hplain : ∀ u ∈ [createConfigIn "default", createConfigIn "other"], u.Plain := by
    simp only [List.forall_mem_cons]
    exact ⟨⟨rfl, trivial⟩, ⟨rfl, trivial⟩, List.forall_mem_nil _⟩
  have hrefused := hstays.refused ⟨0, ⟨2024, 1, 1, 0, 0, 0, 0⟩, "u", "s"⟩
    (.create (.obj [("metadata", .obj [("name", .str "b"), ("namespace", .str "other")])])) _ _ _
    rfl rfl rfl (by decide) (by decide)
  exact ⟨_, _, rfl, rfl, rfl, rfl, hrefused, hstays, hnames rfl hmetadata hplain⟩

end Server

end ControlPlane
