/-
The names of a module's tensors and loops. A tensor or a loop is put on a
module under a name made from a wish: the wish as an identifier, numbered
among the earlier wishes of its kind that come to the same identifier.
Tensors and loops live in one namespace, but are counted apart, and a
numbered name can be somebody else's wish, so two of them can come out
the same; then the later tensor or loop replaces the earlier one, or is
refused because of it.

`lossless_iff_ticketsDiffer` says exactly when that does not happen. A
request's ticket is its wish, as an identifier, with its number; tickets
depend on the requests alone. Serving a sequence of requests loses
nothing (names are distinct, no request is refused over a name that an
earlier one got, and in the end every name still stands for what it was
given to) if and only if no two usable tickets collide, and tickets
collide only in the ways that `Ticket.Collide` lists.

The induction is over the requests still to be served. It carries
`Hosts`: the counters count the requests so far, and the module holds
what was handed out and nothing else.
-/
import OnnxLowering.Proofs.Lowering.Steps
import OnnxLowering.Proofs.Naming.Numbered

namespace OnnxLowering

-- ============================================================== requests

/-- Something to be put on a module, and the wish that its name is made
from. -/
inductive Request where
  | tensor (source : String) (tensor : Tensor) (trainable : Option Bool)
  | loop (base : String) (loop : Loop)

/-- What a request gets: a name, and the node that reads it if it is the
name of a tensor. -/
structure Handle where
  name : String
  node? : Option Ref := none
deriving DecidableEq, Repr

/-- The tensor or loop that a node refers to by name. -/
def Scope.target? (scope : Scope) : Ref → Option String
  | .input _ => none
  | .node i => scope.nodes[i]?.bind fun node => node.action.target?

namespace Request

open Lower in
def serve : Request → Lower Handle
  | tensor source t trainable => do
      let ref ← materialise source t trainable
      return ⟨((← scope).target? ref).getD "", some ref⟩
  | loop base l => do return ⟨← registerLoop base l, none⟩

/-- Serves requests in order. One that fails leaves behind what it had
done until then. -/
def serveAll (context : Context) : List Request → Session →
    List (Except LowerError Handle) × Session
  | [], session => ([], session)
  | request :: rest, session =>
      match request.serve context session with
      | .ok handle session =>
          let (answers, final) := serveAll context rest session
          (.ok handle :: answers, final)
      | .error error session =>
          let (answers, final) := serveAll context rest session
          (.error error :: answers, final)

/-- The identifier that the name is made from. -/
def identifier : Request → String
  | tensor source .. => Identifier.sanitize source
  | loop base _ => Identifier.sanitize base

def isTensor : Request → Bool
  | tensor .. => true
  | loop .. => false

/-- Whether two requests are counted together. -/
def kin (r s : Request) : Bool := r.isTensor == s.isTensor && r.identifier == s.identifier

/-- Whether this is a tensor without derivatives that is to be
trained. -/
def isUntrainable : Request → Bool
  | tensor _ t trainable =>
      trainable.getD t.dtype.isDifferentiable && !t.dtype.isDifferentiable
  | loop .. => false

end Request

-- =============================================================== tickets

/-- A request with the number of earlier ones that are counted together
with it. -/
structure Ticket where
  request : Request
  number : Nat

namespace Ticket

/-- The name that the request asks for in the end. -/
def name (t : Ticket) : String := Counters.numbered t.request.identifier t.number

/-- Whether nothing but another request can be in the way of this one. -/
def Usable (t : Ticket) : Prop :=
  t.request.isUntrainable = false ∧ Reserved.members.contains t.name = false

/-- Two tickets for one name: the same identifier and number, or the
first ticket of an identifier that is another ticket's numbered name. -/
def Collide (t u : Ticket) : Prop :=
  t.request.identifier = u.request.identifier ∧ t.number = u.number
    ∨ t.number ≠ 0 ∧ u.number = 0 ∧ u.request.identifier = t.name
    ∨ t.number = 0 ∧ u.number ≠ 0 ∧ t.request.identifier = u.name

instance (t : Ticket) : Decidable t.Usable := inferInstanceAs (Decidable (_ ∧ _))

instance (t u : Ticket) : Decidable (t.Collide u) := inferInstanceAs (Decidable (_ ∨ _))

theorem collide_iff {t u : Ticket} : t.Collide u ↔ t.name = u.name :=
  Counters.numbered_eq_iff.symm

end Ticket

/-- The tickets of requests that come after some earlier ones. -/
def Request.tickets (earlier : List Request) : List Request → List Ticket
  | [] => []
  | request :: rest =>
      ⟨request, earlier.countP request.kin⟩ :: tickets (earlier ++ [request]) rest

/-- No two usable tickets are for one name. -/
def Request.TicketsDiffer (requests : List Request) : Prop :=
  (tickets [] requests).Pairwise fun t u => t.Usable → u.Usable → ¬ t.Collide u

instance (requests : List Request) : Decidable (Request.TicketsDiffer requests) :=
  inferInstanceAs (Decidable (List.Pairwise
    (fun t u : Ticket => t.Usable → u.Usable → ¬ t.Collide u) _))

-- ============================================================== lossless

/-- A handle still stands for what the request put on the module. -/
def Scope.Resolves (scope : Scope) (handle : Handle) : Request → Prop
  | .tensor _ tensor _ =>
      ∃ ref, handle.node? = some ref ∧ scope.target? ref = some handle.name
        ∧ (scope.attributes.find? handle.name).map Attribute.tensor = some tensor
  | .loop _ loop => scope.loops.find? handle.name = some loop

/-- The name in an answer. -/
def Handle.granted? : Except LowerError Handle → Option String
  | .ok handle => some handle.name
  | .error _ => none

/-- The answers to requests that come after others with the given handles
take nothing away: neither a name that is in use, nor a tensor or loop
from its name. -/
structure LosslessAfter (handed : List (Handle × Request)) (requests : List Request)
    (answers : List (Except LowerError Handle)) (final : Scope) : Prop where
  /-- All names are distinct. -/
  distinct : (handed.map (·.1.name) ++ answers.filterMap Handle.granted?).Nodup
  /-- No request is refused over a name that an earlier one has got. -/
  free : ∀ before name after, answers = before ++ .error (.nameTaken name) :: after →
    name ∉ handed.map (·.1.name) ++ before.filterMap Handle.granted?
  /-- What was handed out before is still there. -/
  older : ∀ entry ∈ handed, final.Resolves entry.1 entry.2
  /-- So is what the requests have got. -/
  newer : List.Forall₂
    (fun request answer => ∀ handle, answer = .ok handle → final.Resolves handle request)
    requests answers

/-- Serving the requests has lost nothing. -/
abbrev Lossless := LosslessAfter []

-- ====================================================== the effects of one

namespace Scope

/-- How often names have been made for requests that are counted together
with this one. -/
def number (scope : Scope) : Request → Nat
  | r@(.tensor ..) => scope.attributeCounters.count r.identifier
  | r@(.loop ..) => scope.loopCounters.count r.identifier

/-- The scope once a name has been made for a request. -/
def counted (scope : Scope) : Request → Scope
  | r@(.tensor ..) =>
      { scope with attributeCounters := (scope.attributeCounters.take r.identifier).2 }
  | r@(.loop ..) => { scope with loopCounters := (scope.loopCounters.take r.identifier).2 }

/-- Whether a request can have a name. -/
def admits (scope : Scope) (name : String) : Request → Bool
  | .tensor _ t trainable =>
      scope.admitsAttribute name (trainable.getD t.dtype.isDifferentiable)
  | .loop .. => scope.admitsLoop name

/-- The scope once a request has got a name. -/
def hold (scope : Scope) (name : String) : Request → Scope
  | .tensor source t trainable =>
      scope.store source name t (trainable.getD t.dtype.isDifferentiable)
  | .loop _ l => { scope with loops := scope.loops.insert name l }

/-- The handle of a request that gets a name in a scope. -/
def handle (scope : Scope) (name : String) : Request → Handle
  | .tensor .. => ⟨name, some (.node scope.nodes.length)⟩
  | .loop .. => ⟨name, none⟩

end Scope

/-- The node that a tensor is stored with reads that tensor. -/
theorem Scope.target?_store (scope : Scope) (source name : String) (t : Tensor)
    (trainable : Bool) :
    (scope.store source name t trainable).target? (.node scope.nodes.length) = some name := by
  simp [store, addNode, target?, Action.target?]

theorem Request.serve_tensor (source : String) (t : Tensor) (trainable : Option Bool)
    (context : Context) (session : Session) :
    (tensor source t trainable).serve context session =
      match Lower.materialise source t trainable context session with
      | .ok ref session => .ok ⟨(session.scope.target? ref).getD "", some ref⟩ session
      | .error error session => .error error session := by
  simp only [serve, Lower.bind_apply, Lower.scope_apply, Lower.pure_apply]
  cases Lower.materialise source t trainable context session <;> rfl

theorem Request.serve_loop (base : String) (l : Loop) (context : Context)
    (session : Session) :
    (loop base l).serve context session =
      match Lower.registerLoop base l context session with
      | .ok name session => .ok ⟨name, none⟩ session
      | .error error session => .error error session := by
  simp only [serve, Lower.bind_apply, Lower.pure_apply]
  cases Lower.registerLoop base l context session <;> rfl

/-- A request is counted, and then it gets the name that is made for it,
unless it cannot be trained as asked or cannot have that name. -/
theorem Request.serve_apply (request : Request) (context : Context) (session : Session) :
    request.serve context session =
      let name := Counters.numbered request.identifier (session.scope.number request)
      let scope := session.scope.counted request
      if request.isUntrainable then .error .notTrainable { session with scope }
      else if scope.admits name request then
        .ok (scope.handle name request) { session with scope := scope.hold name request }
      else .error (.nameTaken name) { session with scope } := by
  cases request with
  | tensor source t trainable =>
      rw [serve_tensor, Lower.materialise_apply]
      by_cases untrainable :
          (trainable.getD t.dtype.isDifferentiable && !t.dtype.isDifferentiable) = true
      · rw [if_pos untrainable]
        exact (if_pos untrainable).symm
      · rw [if_neg untrainable]
        refine Eq.trans ?_ (if_neg untrainable).symm
        by_cases admitted :
            (session.scope.takeAttribute (Identifier.sanitize source)).admitsAttribute
              (Lower.attributeName session.scope source)
              (trainable.getD t.dtype.isDifferentiable) = true
        · rw [if_pos admitted]
          refine Eq.trans ?_ (if_pos admitted).symm
          have htarget := (session.scope.takeAttribute (Identifier.sanitize source)).target?_store
            source (Lower.attributeName session.scope source) t
            (trainable.getD t.dtype.isDifferentiable)
          simp only [Scope.takeAttribute] at htarget
          simp only [Scope.takeAttribute, htarget]
          rfl
        · rw [if_neg admitted]
          exact (if_neg admitted).symm
  | loop base l =>
      rw [serve_loop, Lower.registerLoop_apply]
      refine Eq.trans ?_ (if_neg Bool.false_ne_true).symm
      by_cases admitted : (session.scope.takeLoop (Identifier.sanitize base)).admitsLoop
          (Lower.loopName session.scope base) = true
      · rw [if_pos admitted]
        exact (if_pos admitted).symm
      · rw [if_neg admitted]
        exact (if_neg admitted).symm

namespace Scope

variable {scope : Scope} {name : String} {request : Request} {entry : Handle × Request}

theorem number_counted (scope : Scope) (request other : Request) :
    (scope.counted request).number other
      = scope.number other + if other.kin request then 1 else 0 := by
  have hcount (counters : Counters) (base base' : String) :
      (counters.take base).2.count base'
        = counters.count base' + if (base' == base) then 1 else 0 := by
    by_cases h : base' = base
    · rw [h, Counters.count_take_self, if_pos (beq_self_eq_true base)]
    · rw [Counters.count_take_of_ne counters h, if_neg (by simpa using h), Nat.add_zero]
  cases request <;> cases other
  case tensor.tensor => exact hcount ..
  case loop.loop => exact hcount ..
  all_goals rfl

@[simp] theorem number_hold (scope : Scope) (name : String) (request other : Request) :
    (scope.hold name request).number other = scope.number other := by
  cases request <;> cases other <;> simp only [hold, number, store, addNode_eq]

theorem resolves_counted :
    (scope.counted request).Resolves entry.1 entry.2 ↔ scope.Resolves entry.1 entry.2 := by
  obtain ⟨handle, other⟩ := entry
  cases request <;> cases other <;> exact Iff.rfl

/-- What got its name before keeps it if another name is given away. -/
theorem Resolves.hold (h : scope.Resolves entry.1 entry.2) (hne : entry.1.name ≠ name) :
    (scope.hold name request).Resolves entry.1 entry.2 := by
  obtain ⟨⟨old, node?⟩, other⟩ := entry
  cases other with
  | tensor source t trainable =>
      obtain ⟨ref, hnode, htarget, hfound⟩ := h
      refine ⟨ref, hnode, ?_, ?_⟩
      · cases request with
        | tensor =>
            cases ref with
            | input => exact htarget
            | node i =>
                simp only [Scope.hold, store, addNode_eq, target?] at htarget ⊢
                have hi : i < scope.nodes.length := by
                  by_contra hout
                  rw [List.getElem?_eq_none (Nat.le_of_not_lt hout)] at htarget
                  cases htarget
                rwa [List.getElem?_append_left hi]
        | loop => exact htarget
      · cases request with
        | tensor => rwa [Scope.hold, store, NameMap.find?_insert_of_ne _ _ hne]
        | loop => exact hfound
  | loop base l =>
      cases request with
      | tensor => simpa only [Scope.hold, store, addNode_eq, Resolves] using h
      | loop => exact (NameMap.find?_insert_of_ne _ _ hne).trans h

/-- What a request puts on the module is found there. -/
theorem resolves_hold (scope : Scope) (name : String) (request : Request) :
    (scope.hold name request).Resolves (scope.handle name request) request := by
  cases request with
  | tensor source t trainable =>
      refine ⟨.node scope.nodes.length, rfl, target?_store .., ?_⟩
      rw [Scope.hold, store, handle, NameMap.find?_insert_self]
      rfl
  | loop base l => exact NameMap.find?_insert_self ..

/-- Nothing is in the way of a name that is not reserved and not in use. -/
theorem admits_of_unused (hreserved : Reserved.members.contains name = false)
    (hattributes : scope.attributes.contains name = false)
    (hloops : scope.loops.contains name = false) : scope.admits name request = true := by
  cases request with
  | tensor source t trainable =>
      have hnone : scope.attributes.find? name = none := by
        simpa [NameMap.contains] using hattributes
      rw [admits, admitsAttribute, hreserved, hloops, hnone]
      rfl
  | loop base l =>
      rw [admits, admitsLoop, hreserved, hattributes]
      rfl

theorem admits_of_reserved (hreserved : Reserved.members.contains name = true) :
    scope.admits name request = false := by
  cases request <;> simp only [admits, admitsAttribute, admitsLoop, hreserved] <;> rfl

end Scope

-- ============================================================= invariant

/-- The module of a scope holds what was handed out, and its counters
count the requests. -/
structure Hosts (earlier : List Request) (handed : List (Handle × Request))
    (scope : Scope) : Prop where
  counts : ∀ request, scope.number request = earlier.countP request.kin
  resolves : ∀ entry ∈ handed, scope.Resolves entry.1 entry.2
  /-- Only what was handed out is there. -/
  attributes : ∀ name, scope.attributes.contains name = true → name ∈ handed.map (·.1.name)
  loops : ∀ name, scope.loops.contains name = true → name ∈ handed.map (·.1.name)
  unreserved : ∀ name ∈ handed.map (·.1.name), Reserved.members.contains name = false

namespace Hosts

variable {earlier : List Request} {handed : List (Handle × Request)} {scope : Scope}
  {request : Request}

/-- A graph of which nothing is lowered yet holds nothing. -/
theorem ofGraph {G : Type} {graph : GraphOf G} (h : Scope.ofGraph graph = .ok scope) :
    Hosts [] [] scope := by
  obtain ⟨initializers, -, h⟩ := Except.bind_eq_ok.1 h
  cases h
  constructor
  · intro request
    cases request <;> rfl
  · exact fun entry hentry => nomatch hentry
  · exact fun name hname => nomatch hname
  · exact fun name hname => nomatch hname
  · exact fun name hname => nomatch hname

/-- A request that gets nothing only counts. -/
theorem counted (h : Hosts earlier handed scope) :
    Hosts (earlier ++ [request]) handed (scope.counted request) where
  counts other := by
    rw [Scope.number_counted, h.counts, List.countP_append, List.countP_singleton]
  resolves entry hentry := Scope.resolves_counted.2 (h.resolves entry hentry)
  attributes name hname := h.attributes name (by cases request <;> exact hname)
  loops name hname := h.loops name (by cases request <;> exact hname)
  unreserved := h.unreserved

/-- A name that is neither reserved nor handed out can be given away. -/
theorem admits (h : Hosts earlier handed scope) {name : String}
    (hreserved : Reserved.members.contains name = false)
    (hnew : name ∉ handed.map (·.1.name)) : scope.admits name request = true := by
  refine Scope.admits_of_unused hreserved ?_ ?_
  · exact Bool.eq_false_iff.2 fun hname => hnew (h.attributes name hname)
  · exact Bool.eq_false_iff.2 fun hname => hnew (h.loops name hname)

/-- What has got a new name is held together with all that was held. -/
theorem hold (h : Hosts earlier handed scope) {name : String}
    (hreserved : Reserved.members.contains name = false)
    (hnew : name ∉ handed.map (·.1.name)) :
    Hosts earlier (handed ++ [(scope.handle name request, request)])
      (scope.hold name request) := by
  have hhandle : (scope.handle name request).name = name := by cases request <;> rfl
  have hnames : (handed ++ [(scope.handle name request, request)]).map (·.1.name)
      = handed.map (·.1.name) ++ [name] := by
    rw [List.map_append, List.map_singleton, hhandle]
  constructor
  · intro other
    rw [Scope.number_hold, h.counts]
  · intro entry hentry
    rcases List.mem_append.1 hentry with hold | hthis
    · refine (h.resolves entry hold).hold fun hsame => hnew ?_
      exact hsame ▸ List.mem_map_of_mem hold
    · rw [List.mem_singleton.1 hthis]
      exact Scope.resolves_hold scope name request
  · intro other hother
    rw [hnames, List.mem_append, List.mem_singleton]
    cases request with
    | tensor source t trainable =>
        rw [Scope.hold, Scope.store, NameMap.contains_insert, Bool.or_eq_true] at hother
        exact hother.symm.imp (h.attributes other) beq_iff_eq.1
    | loop base l => exact Or.inl (h.attributes other hother)
  · intro other hother
    rw [hnames, List.mem_append, List.mem_singleton]
    cases request with
    | tensor source t trainable =>
        rw [Scope.hold, Scope.store, Scope.addNode_eq] at hother
        exact Or.inl (h.loops other hother)
    | loop base l =>
        rw [Scope.hold, NameMap.contains_insert, Bool.or_eq_true] at hother
        exact hother.symm.imp (h.loops other) beq_iff_eq.1
  · intro other hother
    rw [hnames, List.mem_append, List.mem_singleton] at hother
    rcases hother with hold | rfl
    · exact h.unreserved other hold
    · exact hreserved

end Hosts

-- ============================================================ the main result

section

variable {handed : List (Handle × Request)} {request : Request} {rest : List Request}
  {answers : List (Except LowerError Handle)} {final : Scope}

/-- A refusal takes nothing away, unless it is over a name in use. -/
theorem losslessAfter_cons_error {error : LowerError}
    (h : ∀ name, error = .nameTaken name → name ∉ handed.map (·.1.name)) :
    LosslessAfter handed (request :: rest) (.error error :: answers) final
      ↔ LosslessAfter handed rest answers final := by
  constructor
  · intro lossless
    refine ⟨lossless.distinct, ?_, lossless.older, (List.forall₂_cons.1 lossless.newer).2⟩
    intro before name after hanswers
    exact lossless.free (.error error :: before) name after (congrArg _ hanswers)
  · intro lossless
    refine ⟨lossless.distinct, ?_, lossless.older, .cons (fun _ h => nomatch h) lossless.newer⟩
    intro before name after hanswers
    cases before with
    | nil =>
        rw [List.filterMap_nil, List.append_nil]
        exact h name (Except.error.inj (List.cons.inj hanswers).1)
    | cons answer before =>
        obtain ⟨hanswer, hrest⟩ := List.cons.inj hanswers
        subst hanswer
        exact lossless.free before name after hrest

/-- A handle that is given out counts as handed out for all that
follows. -/
theorem losslessAfter_cons_ok {handle : Handle} :
    LosslessAfter handed (request :: rest) (.ok handle :: answers) final
      ↔ LosslessAfter (handed ++ [(handle, request)]) rest answers final := by
  have hnames (others : List (Except LowerError Handle)) :
      (handed ++ [(handle, request)]).map (·.1.name) ++ others.filterMap Handle.granted?
        = handed.map (·.1.name) ++ (.ok handle :: others).filterMap Handle.granted? := by
    simp [Handle.granted?]
  constructor
  · intro lossless
    obtain ⟨hthis, hnewer⟩ := List.forall₂_cons.1 lossless.newer
    refine ⟨hnames answers ▸ lossless.distinct, ?_, ?_, hnewer⟩
    · intro before name after hanswers
      rw [hnames]
      exact lossless.free (.ok handle :: before) name after (congrArg _ hanswers)
    · intro entry hentry
      rcases List.mem_append.1 hentry with hold | hlast
      · exact lossless.older entry hold
      · rw [List.mem_singleton.1 hlast]
        exact hthis handle rfl
  · intro lossless
    refine ⟨(hnames answers).symm ▸ lossless.distinct, ?_,
      fun entry hentry => lossless.older entry (List.mem_append_left _ hentry),
      .cons ?_ lossless.newer⟩
    · intro before name after hanswers
      cases before with
      | nil => exact nomatch (List.cons.inj hanswers).1
      | cons answer before =>
          obtain ⟨hanswer, hrest⟩ := List.cons.inj hanswers
          subst hanswer
          rw [← hnames]
          exact lossless.free before name after hrest
    · rintro _ ⟨⟩
      exact lossless.older _ (List.mem_append_right _ List.mem_cons_self)

/-- No two usable tickets are for one name, and none is for a name that
has been handed out. -/
def TicketsFit (handed : List (Handle × Request)) (tickets : List Ticket) : Prop :=
  (∀ t ∈ tickets, t.Usable → t.name ∉ handed.map (·.1.name))
    ∧ tickets.Pairwise fun t u => t.Usable → u.Usable → ¬ t.Collide u

variable {t : Ticket} {tickets : List Ticket}

theorem ticketsFit_cons_of_not_usable (h : ¬ t.Usable) :
    TicketsFit handed (t :: tickets) ↔ TicketsFit handed tickets := by
  rw [TicketsFit, TicketsFit, List.forall_mem_cons, List.pairwise_cons]
  constructor
  · rintro ⟨⟨-, hnew⟩, -, hdiffer⟩
    exact ⟨hnew, hdiffer⟩
  · rintro ⟨hnew, hdiffer⟩
    exact ⟨⟨fun husable => absurd husable h, hnew⟩, fun _ _ husable => absurd husable h, hdiffer⟩

theorem ticketsFit_cons_of_usable {handle : Handle} (h : t.Usable)
    (hnew : t.name ∉ handed.map (·.1.name)) (hname : handle.name = t.name) :
    TicketsFit handed (t :: tickets) ↔ TicketsFit (handed ++ [(handle, request)]) tickets := by
  have hiff (u : Ticket) : u.name ∉ (handed ++ [(handle, request)]).map (·.1.name)
      ↔ u.name ∉ handed.map (·.1.name) ∧ ¬ t.Collide u := by
    rw [List.map_append, List.mem_append, List.map_singleton, List.mem_singleton, hname,
      Ticket.collide_iff, not_or, eq_comm]
  rw [TicketsFit, TicketsFit, List.forall_mem_cons, List.pairwise_cons]
  constructor
  · rintro ⟨⟨-, hothers⟩, hfirst, hdiffer⟩
    exact ⟨fun u hu husable => (hiff u).2 ⟨hothers u hu husable, hfirst u hu h husable⟩, hdiffer⟩
  · rintro ⟨hothers, hdiffer⟩
    exact ⟨⟨fun _ => hnew, fun u hu husable => ((hiff u).1 (hothers u hu husable)).1⟩,
      fun u hu _ husable => ((hiff u).1 (hothers u hu husable)).2, hdiffer⟩

end

namespace Request

variable {context : Context} {request : Request} {rest : List Request}
  {session session' : Session}

theorem serveAll_cons_ok {handle : Handle}
    (h : request.serve context session = .ok handle session') :
    serveAll context (request :: rest) session
      = (.ok handle :: (serveAll context rest session').1,
          (serveAll context rest session').2) := by
  rw [serveAll, h]

theorem serveAll_cons_error {error : LowerError}
    (h : request.serve context session = .error error session') :
    serveAll context (request :: rest) session
      = (.error error :: (serveAll context rest session').1,
          (serveAll context rest session').2) := by
  rw [serveAll, h]

end Request

section

variable {context : Context} {earlier : List Request} {handed : List (Handle × Request)}
  {session : Session} {request : Request}

/-- A request that is not usable is refused, but not over a name in
use. -/
theorem Hosts.serve_of_not_usable (h : Hosts earlier handed session.scope)
    (context : Context)
    (husable : ¬ Ticket.Usable ⟨request, earlier.countP request.kin⟩) :
    ∃ error, request.serve context session
        = .error error { session with scope := session.scope.counted request }
      ∧ ∀ name, error = .nameTaken name → name ∉ handed.map (·.1.name) := by
  rw [request.serve_apply, h.counts]
  by_cases untrainable : request.isUntrainable = true
  · refine ⟨_, if_pos untrainable, ?_⟩
    exact fun name hname => nomatch hname
  · have hreserved : Reserved.members.contains
        (Counters.numbered request.identifier (earlier.countP request.kin)) = true := by
      by_contra hfree
      exact husable ⟨Bool.eq_false_iff.2 untrainable, Bool.eq_false_iff.2 hfree⟩
    refine ⟨_, (if_neg untrainable).trans (if_neg ?_), ?_⟩
    · rw [Scope.admits_of_reserved hreserved]
      exact Bool.false_ne_true
    · rintro name ⟨⟩ hname
      exact absurd hreserved (Bool.eq_false_iff.1 (h.unreserved _ hname))

/-- A usable request for a new name gets it. -/
theorem Hosts.serve_of_new (h : Hosts earlier handed session.scope) {t : Ticket}
    (ht : t = ⟨request, earlier.countP request.kin⟩) (husable : t.Usable)
    (hnew : t.name ∉ handed.map (·.1.name)) :
    request.serve context session
      = .ok ((session.scope.counted request).handle t.name request)
          { session with scope := (session.scope.counted request).hold t.name request } := by
  subst ht
  rw [request.serve_apply, h.counts]
  refine (if_neg ?_).trans (if_pos ?_)
  · exact Bool.eq_false_iff.1 husable.1
  · have hcounted : Hosts (earlier ++ [request]) handed (session.scope.counted request) :=
      h.counted
    exact hcounted.admits husable.2 hnew

/-- A usable request for a name in use is refused because of it, or gets
it once more. -/
theorem Hosts.serve_of_old (h : Hosts earlier handed session.scope) (context : Context)
    {t : Ticket} (ht : t = ⟨request, earlier.countP request.kin⟩) (husable : t.Usable) :
    (∃ session', request.serve context session = .error (.nameTaken t.name) session')
      ∨ ∃ handle session', handle.name = t.name
          ∧ request.serve context session = .ok handle session' := by
  subst ht
  rw [request.serve_apply, h.counts]
  by_cases admitted : (session.scope.counted request).admits
      (Ticket.name ⟨request, earlier.countP request.kin⟩) request = true
  · refine Or.inr ⟨_, _, ?_, (if_neg (Bool.eq_false_iff.1 husable.1)).trans (if_pos admitted)⟩
    cases request <;> rfl
  · exact Or.inl ⟨_, (if_neg (Bool.eq_false_iff.1 husable.1)).trans (if_neg admitted)⟩

/-- What is handed out for more requests is lossless if and only if their
tickets fit. -/
theorem losslessAfter_iff_ticketsFit {rest : List Request} (h : Hosts earlier handed session.scope)
    (hdistinct : (handed.map (·.1.name)).Nodup) :
    LosslessAfter handed rest (Request.serveAll context rest session).1
        (Request.serveAll context rest session).2.scope
      ↔ TicketsFit handed (Request.tickets earlier rest) := by
  induction rest generalizing earlier handed session with
  | nil =>
      refine iff_of_true ⟨?_, ?_, h.resolves, .nil⟩ ⟨?_, List.Pairwise.nil⟩
      · rwa [Request.serveAll, List.filterMap_nil, List.append_nil]
      · intro before name after hanswers
        exact absurd hanswers.symm (by simp [Request.serveAll])
      · exact fun t ht => nomatch ht
  | cons request rest ih =>
      obtain ⟨t, ht⟩ : ∃ t : Ticket, t = ⟨request, earlier.countP request.kin⟩ := ⟨_, rfl⟩
      rw [Request.tickets, ← ht]
      by_cases husable : t.Usable
      · by_cases hnew : t.name ∈ handed.map (·.1.name)
        · -- a name in use makes both sides false
          refine iff_of_false (fun lossless => ?_) (fun fit => ?_)
          · rcases h.serve_of_old context ht husable with
              ⟨session', hserve⟩ | ⟨handle, session', hname, hserve⟩
            · rw [Request.serveAll_cons_error hserve] at lossless
              refine lossless.free [] t.name _ rfl ?_
              rwa [List.filterMap_nil, List.append_nil]
            · rw [Request.serveAll_cons_ok hserve] at lossless
              have hdiffer := (List.nodup_append.1 lossless.distinct).2.2
              exact hdiffer t.name hnew handle.name List.mem_cons_self hname.symm
          · exact fit.1 t List.mem_cons_self husable hnew
        · have hname : ((session.scope.counted request).handle t.name request).name = t.name := by
            cases request <;> rfl
          rw [Request.serveAll_cons_ok (h.serve_of_new ht husable hnew), losslessAfter_cons_ok,
            ticketsFit_cons_of_usable husable hnew hname]
          refine ih (h.counted.hold husable.2 hnew) ?_
          rw [List.map_append, List.map_singleton, hname, List.nodup_append]
          refine ⟨hdistinct, List.pairwise_singleton _ _, fun old hold other hother => ?_⟩
          rw [List.mem_singleton.1 hother]
          exact fun hsame => hnew (hsame ▸ hold)
      · obtain ⟨error, hserve, hfree⟩ :=
          h.serve_of_not_usable context (ht ▸ husable)
        rw [Request.serveAll_cons_error hserve, losslessAfter_cons_error hfree,
          ticketsFit_cons_of_not_usable husable]
        exact ih h.counted hdistinct

end

/-- Serving requests on the module of a graph loses nothing if and only
if no two usable tickets collide. -/
theorem lossless_iff_ticketsDiffer {G : Type} {graph : GraphOf G} {scope : Scope}
    (hscope : Scope.ofGraph graph = .ok scope) (context : Context) (log : List LogRecord)
    (requests : List Request) :
    Lossless requests (Request.serveAll context requests ⟨scope, log⟩).1
        (Request.serveAll context requests ⟨scope, log⟩).2.scope
      ↔ Request.TicketsDiffer requests := by
  rw [Lossless, losslessAfter_iff_ticketsFit (Hosts.ofGraph hscope) List.nodup_nil, TicketsFit,
    Request.TicketsDiffer]
  exact and_iff_right fun t _ _ hname => nomatch hname

/-- Two tensors and a loop that lose nothing: the names are `a_`, `a__1`
and `b`. -/
theorem lossless_sharedBase :
    let requests : List Request :=
      [.tensor "a." (.scalar .float32 1) none, .tensor "a:" (.scalar .int64 2) none,
        .loop "b" .unknown]
    Scope.ofGraph ({} : GraphOf Graph) = .ok {}
      ∧ Lossless requests (Request.serveAll ⟨9, []⟩ requests ⟨{}, []⟩).1
          (Request.serveAll ⟨9, []⟩ requests ⟨{}, []⟩).2.scope := by
  have hscope : Scope.ofGraph ({} : GraphOf Graph) = .ok {} := rfl
  exact ⟨hscope, (lossless_iff_ticketsDiffer hscope ⟨9, []⟩ [] _).2 (by decide)⟩

/-- The third tensor wishes for the numbered name of the second, which it
replaces. -/
theorem not_lossless_numberedWish :
    let requests : List Request :=
      [.tensor "a." (.scalar .float32 1) none, .tensor "a:" (.scalar .float32 2) none,
        .tensor "a__1" (.scalar .float32 3) none]
    Scope.ofGraph ({} : GraphOf Graph) = .ok {}
      ∧ ¬ Lossless requests (Request.serveAll ⟨9, []⟩ requests ⟨{}, []⟩).1
          (Request.serveAll ⟨9, []⟩ requests ⟨{}, []⟩).2.scope := by
  refine ⟨rfl, fun lossless => absurd lossless.distinct ?_⟩
  decide +kernel

end OnnxLowering
