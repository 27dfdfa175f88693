import Blockwork.Proofs.KeyOrder
import Blockwork.Proofs.RereadingChains

set_option autoImplicit false

namespace Blockwork

open List Outline
open Markup (Node NodeList EntryList Scalar)

theorem Outline.name_scalar (text : String) : ∃ s : Scalar, name text = .scalar {} s ∧ s.text = text := by
  unfold name
  split_ifs
  · exact ⟨_, rfl, rfl⟩
  · exact ⟨_, rfl, rfl⟩

def Outline.head (G : Graph) (h : Head) : Outline :=
  statement G h.block (chain G h.body.chain) (chain G h.otherwise.chain)

theorem Statement.of_handler {top : Bool} {c : Content} {operands : List (Slot × Term)} {body otherwise : Plan}
    (statement : Statement top c operands body otherwise) (kind : c.kind = .when) :
    ∃ cond times, c = { kind := .when, times } ∧ operands = [(.cond, cond)] ∧ otherwise = .nil ∧
      (times = unbounded ∨ 0 ≤ times ∧ times < 2 ^ 63) := by
  cases statement with
  | handler cond times body atTop limit => exact ⟨cond, times, rfl, rfl, rfl, limit⟩
  | _ => cases kind

namespace Document

variable {s : LoadState} {g : Graph} {names : Names}

theorem yields_fresh (is : s.Is g names) :
    Yields (modify fun s => { s with frames := [[]] }) s () (·.Is g names.fresh) :=
  ⟨_, rfl, is.graph, is.known.fresh⟩

theorem yields_devices {ds : List Device} (is : s.Is g names) (reads : Blueprint.DevicesRead (g.devices ++ ds)) :
    Yields (devices (Outline.nodes (.ofList (ds.map Outline.device)))) s ()
      (·.Is { g with devices := g.devices ++ ds } names) := by
  induction ds generalizing s g with
  | nil =>
    refine yields_pure ?_
    simpa using is
  | cons d rest hyp =>
    obtain ⟨named, type, text, typed, readable⟩ := reads.2 d (by simp)
    have same : d = { name := d.name, type := some type } := by
      rw [← typed]
    have new : g.device? d.name = none := by
      refine find?_eq_none.mpr fun e mem same => ?_
      have apart := reads.1
      rw [map_append, nodup_append] at apart
      exact apart.2.2 e.name (mem_map_of_mem mem) d.name (by simp) (by simpa using same)
    have listed : Yields (onGraph (fun g => { g with devices := g.devices ++ [d] }) >>= fun _ =>
        devices (Outline.nodes (.ofList (rest.map Outline.device)))) s ()
        (·.Is { g with devices := g.devices ++ d :: rest } names) := by
      refine yields_bind (yields_on_graph (fun id b found => ⟨b, found, rfl⟩) is) fun s₁ is => ?_
      have others := hyp is (by simpa using reads)
      simpa using others
    change Yields
      (devices (.cons (Outline.flowMapping [("name", Outline.name d.name), ("type", Outline.type d.type)]) _)) _ _ _
    unfold devices Outline.flowMapping
    dsimp only
    rw [fields_written [("name", Outline.name d.name), ("type", Outline.type d.type)] (by simp), pure_bind]
    have given : (written [("name", Outline.name d.name), ("type", Outline.type d.type)]).get? "name" =
        some ⟨Outline.plain "name", "name", Outline.name d.name⟩ := by simp
    have meant : ∀ n, typeOf (written [("name", Outline.name d.name), ("type", Outline.type d.type)]) n =
      pure type := fun n =>
      type_written n type ⟨Outline.plain "type", "type", Outline.type d.type⟩ (by simp) (by rw [typed]) ⟨text, readable⟩
    obtain ⟨scalar, shown, own⟩ := Outline.name_scalar d.name
    simp only [given, pure_bind, meant]
    rw [shown]
    dsimp only
    rw [own, if_neg (by simpa using named)]
    refine yields_get ?_
    rw [is.graph, new, if_neg (by simp), ← same]
    exact listed

section Parts

variable (G : Graph) (plain : ∀ b ∈ G.blocks, b.unplaced = b) (writable : G.Writable)

include plain writable

variable {s : LoadState} {g : Graph} {names : Names}

theorem yields_main {p : Plan} {start : Block} (inside : p.In G false) (own : start.unplaced = start) (depth : Nat)
    (wide : Node.depthOfAll (Outline.nodes (Outline.chain G p.chain)) ≤ depth) (is : s.Is g names)
    (reads : Blueprint.MainReads names (g.size + 1) p start) :
    Yields (mainChain depth ⟨Outline.plain "main", "main", .list {} (Outline.nodes (Outline.chain G p.chain))⟩) s ()
      (·.Is { g.append (p.blocks ++ [start]) with main := start.id } (p.after names.fresh)) := by
  obtain ⟨planned, placed, content⟩ := reads
  have row := p.row_reads _ _ _ planned
  have joined := p.join_row _ _ _ planned
  have length : p.blocks.length = (p.row.flatMap Head.blocks).length := by
    rw [← Plan.join_length (g.size + 1 + p.blocks.length), joined]
  refine yields_bind (yields_fresh is) fun s₁ is => ?_
  refine yields_bind (replays_plan G plain writable depth depth inside wide wide _ g s₁ _ is planned) fun s₂ is => ?_
  refine yields_bind (yields_add .start (Outline.plain "main") id rfl is) fun s₃ is => ?_
  have last : (g.append (p.row.flatMap Head.blocks)).size + 1 = start.id := by
    rw [Graph.size_append, ← length, placed.id]
    exact Nat.add_right_comm _ _ _
  rw [last] at is ⊢
  obtain ⟨grown, known⟩ := is
  rcases chained : s₃.graph.chain (p.row.map (·.block.id)) with ⟨first, g'⟩
  have started := g.start_row (Block.unplaced { id := start.id, kind := .start })
    (Graph.row_numbered _ _ row) p.row_loose rfl
    (by rw [← length]; exact placed.id.symm) first g' (by rw [← chained, grown]; rfl)
  have same : { Block.unplaced { id := start.id, kind := .start } with next := p.id } = start :=
    Block.rebuilt start { id := start.id, kind := .start, next := p.id } content.symm (placed.id ▸ placed) own
  rw [show Plan.join (Block.unplaced { id := start.id, kind := .start }).id p.row = p from placed.id ▸ joined, same]
    at started
  refine yields_get ⟨{ s₃ with graph := { g.append (p.blocks ++ [start]) with main := start.id } }, ?_, rfl, ?_⟩
  · rw [chained, ← started]
    rfl
  · have keeps := s₃.graph.keeps_started g' start.id chained
    rw [show (if first = 0 then g' else g'.link start.id first) = _ from started] at keeps
    exact known.keeps _ keeps rfl rfl

theorem yields_handlers {hs : List Head} (inside : ∀ h ∈ hs, h.single.In G true) (depth : Nat)
    (wide : Node.depthOfAll (Outline.nodes (.ofList (hs.map (Outline.head G)))) ≤ depth) (is : s.Is g names)
    (reads : Blueprint.HandlersRead names (g.size + 1) hs) :
    Yields (handlers depth (Outline.nodes (.ofList (hs.map (Outline.head G))))) s ()
      (·.graph = { g.append (hs.flatMap Head.blocks) with handlers := g.handlers ++ hs.map (·.block.id) }) := by
  induction hs generalizing s g names with
  | nil =>
    refine yields_pure ?_
    simpa using is.graph
  | cons h rest hyp =>
    obtain ⟨b, operands, body, otherwise⟩ := h
    obtain ⟨read, kind, others⟩ := reads
    have node := Plan.in_cons true b operands body otherwise .nil (inside _ mem_cons_self)
    have bare := plain b (G.block_mem node.found)
    have encloses := Outline.encloses G b operands body otherwise node.slots read
    change Node.depthOfAll
      (.cons (Outline.statement G b (Outline.chain G body.chain) (Outline.chain G otherwise.chain)).node
      (Outline.nodes (.ofList (rest.map (Outline.head G))))) ≤ _ at wide
    rw [Node.depthOfAll] at wide
    have inBody := encloses.body
    obtain ⟨less, rfl⟩ : ∃ less, depth = less + 1 := ⟨depth - 1, by omega⟩
    obtain ⟨cond, times, content, rfl, rfl, limit⟩ := Statement.of_handler node.statement kind
    have rereads := held_again G plain writable node.terms encloses (less + 1) (by omega) (names.fresh.inside b)
    have replays := replays_plan G plain writable (less + 1) less node.inBody (by omega) (by omega)
    have shown := Outline.statement_when G b (Outline.chain G body.chain) (Outline.chain G Plan.nil.chain) kind
    rw [node.slots, show b.times = times from congrArg Content.times content] at shown
    generalize listed : (("when", Outline.expression (Plan.among [(.cond, cond)] .cond)) ::
      ((if times = unbounded then [] else [("times", Outline.plain (toString times))]) ++
        [("do", Node.list {} (Outline.nodes (Outline.chain G body.chain)))])) = pairs at shown
    have apart : (pairs.map Prod.fst).Nodup := by
      rw [← listed]
      split_ifs <;> simp
    have trigger : (written pairs).has "when" = true := by simp [← listed]
    have given : (written pairs).get? "do" = some
        ⟨Outline.plain "do", "do", .list {} (Outline.nodes (Outline.chain G body.chain))⟩ := by
      rw [← listed]
      split_ifs <;> simp
    have counted : (written pairs).get? "times" =
        if times = unbounded then none else some ⟨Outline.plain "times", "times", Outline.plain (toString times)⟩ := by
      rw [← listed]
      split_ifs <;> simp
    have word : keyword (Outline.flowMapping pairs) (written pairs) = pure ("when", Outline.expression cond) := by
      rw [← listed]
      exact keyword_written "when" ["times", "do"] rfl (by split_ifs <;> simp)
    have handled : ∀ s', LoadState.Is s' g names.fresh →
        Yields (statement (operand (less + 1)) (less + 1) true (Outline.flowMapping pairs) (written pairs)) s'
          (g.size + 1)
          (·.Is { g.append (Head.mk b [(.cond, cond)] body .nil).blocks with handlers := g.handlers ++ [g.size + 1] }
            ((Plan.cons b [(.cond, cond)] body .nil .nil).after names.fresh)) := by
      intro s' is
      unfold statement statementWith
      rw [word, pure_bind]
      exact again_handler bare rfl (rereads _ mem_cons_self) replays limit content given rfl counted is read
    change Yields (handlers (less + 1)
      (.cons (Outline.statement G b (Outline.chain G body.chain) (Outline.chain G Plan.nil.chain)).node
      (Outline.nodes (.ofList (rest.map (Outline.head G)))))) _ _ _
    rw [shown, Outline.flowMapping]
    unfold handlers
    dsimp only
    rw [fields_written pairs apart, pure_bind, trigger, if_neg (by simp)]
    refine yields_bind (yields_fresh is) fun s₁ is => yields_bind (handled s₁ is) fun s₂ is => ?_
    have size : g.size + 1 + (Head.mk b [(.cond, cond)] body .nil).blocks.length =
        (Graph.size { g.append (Head.mk b [(.cond, cond)] body .nil).blocks with handlers := g.handlers ++
          [g.size + 1] }) + 1 := by
      rw [Nat.add_right_comm, ← Graph.size_append]
      rfl
    have later := hyp (fun h mem => inside h (mem_cons_of_mem _ mem)) (by omega) is (size ▸ others)
    have own : b.id = g.size + 1 := read.1.id
    simpa [Graph.append, own] using later

end Parts

section Programs

variable {name : String} {read : Field → Loading Unit} {s : LoadState} {after : LoadState → Prop}

theorem yields_absent {fs : Fields} (absent : fs.get? name = none) (holds : after s) :
    Yields (part fs name read) s () after := by
  rw [part, absent]
  exact yields_pure holds

theorem yields_present {fs : Fields} {f : Field} (there : fs.get? name = some f) (yields : Yields (read f) s () after) :
    Yields (part fs name read) s () after := by
  rw [part, there]
  exact yields

def topPairs (devices main handlers : Option Node) : List (String × Node) :=
  devices.toList.map (("devices", ·)) ++ main.toList.map (("main", ·)) ++ handlers.toList.map (("handlers", ·))

variable (d m h : Option Node)

theorem top_apart : ((topPairs d m h).map Prod.fst).Nodup := by
  cases d <;> cases m <;> cases h <;> simp [topPairs]

theorem top_known :
    (written (topPairs d m h)).find? (fun f => ¬ ["devices", "main", "handlers"].contains f.name) = none := by
  cases d <;> cases m <;> cases h <;> simp [topPairs, written]

theorem top_devices : (written (topPairs d m h)).get? "devices" = d.map fun n => ⟨plain "devices", "devices", n⟩ := by
  cases d <;> cases m <;> cases h <;> simp [topPairs]

theorem top_main : (written (topPairs d m h)).get? "main" = m.map fun n => ⟨plain "main", "main", n⟩ := by
  cases d <;> cases m <;> cases h <;> simp [topPairs]

theorem top_handlers : (written (topPairs d m h)).get? "handlers" = h.map fun n =>
    ⟨plain "handlers", "handlers", n⟩ := by
  cases d <;> cases m <;> cases h <;> simp [topPairs]

variable (bp : Blueprint) (reads : bp.Reads)

def devicesNode : Option Node :=
  if bp.devices.isEmpty then none else some (.list {} (Outline.nodes (.ofList (bp.devices.map Outline.device))))

def mainNode : Option Node := bp.main.map fun p => .list {} (Outline.nodes (Outline.chain bp.graph p.1.chain))

def handlersNode : Option Node :=
  if bp.handlers.isEmpty then none else some
    (.list {} (Outline.nodes (.ofList (bp.handlers.map (Outline.head bp.graph)))))

include reads

theorem of_graph_parts : (Outline.ofGraph bp.graph).node = Outline.flowMapping
    (topPairs (devicesNode bp) (mainNode bp) (handlersNode bp)) := by
  have main : (bp.graph.block? bp.graph.main).toList.map (fun start => ("main", (Outline.body (Outline.chain bp.graph
      (bp.graph.chainTree start.next))).node)) = (mainNode bp).toList.map (("main", ·)) := by
    unfold mainNode
    cases found : bp.main with
    | none =>
      have none : bp.graph.main = 0 := by simp [Blueprint.graph, found]
      rw [none]
      rfl
    | some whole =>
      obtain ⟨p, start⟩ := whole
      obtain ⟨here, next, inside⟩ := bp.main_in reads found
      rw [here]
      simp [next, p.read_back inside, Outline.body_node]
  have handlers : bp.graph.handlers.filterMap (Outline.handler bp.graph) = bp.handlers.map (Outline.head bp.graph) := by
    have each := bp.handler_in reads
    have ids : bp.graph.handlers = bp.handlers.map (·.block.id) := rfl
    rw [ids, filterMap_map, ← filterMap_eq_map]
    refine filterMap_congr fun h mem => ?_
    have tree : bp.graph.chainTree h.block.id = h.single.chain := h.single.read_back (each h mem)
    simp only [Function.comp_apply, Outline.handler, tree]
    rfl
  have empty : bp.graph.handlers.isEmpty = bp.handlers.isEmpty := isEmpty_map
  unfold Outline.ofGraph
  rw [Outline.mapping_node, handlers, empty, map_append, map_append, map_map]
  unfold topPairs devicesNode handlersNode
  congr 1
  refine congrArg₂ (· ++ ·) (congrArg₂ (· ++ ·) ?_ main) ?_
  · change (if bp.devices.isEmpty then [] else _ : List (String × Outline)).map _ = _
    split_ifs <;> rfl
  · split_ifs <;> rfl

variable (plain : ∀ b ∈ bp.graph.blocks, b.unplaced = b) (writable : bp.graph.Writable) (depth : Nat)

include plain writable

variable (fs : Fields)

theorem handlers_again
    (there : fs.get? "handlers" = (handlersNode bp).map fun n => ⟨Outline.plain "handlers", "handlers", n⟩)
    (wide : ∀ n, handlersNode bp = some n → n.depth ≤ depth) {g : Graph} {names : Names} (is : s.Is g names)
    (others : Blueprint.HandlersRead names (g.size + 1) bp.handlers) (unlisted : g.handlers = []) :
    Yields (part fs "handlers" (listPart .handlersNotList (handlers depth))) s ()
      (·.graph = { g.append (bp.handlers.flatMap Head.blocks) with handlers := bp.handlers.map (·.block.id) }) := by
  by_cases empty : bp.handlers.isEmpty
  · rw [handlersNode, if_pos empty] at there
    refine yields_absent there ?_
    rw [List.isEmpty_iff] at empty
    simpa [empty, ← unlisted] using is.graph
  · rw [handlersNode, if_neg empty] at wide there
    have deep := wide _ rfl
    rw [Node.depth] at deep
    have read := yields_handlers bp.graph plain writable (bp.handler_in reads) depth (by omega) is others
    rw [unlisted] at read
    exact yields_present there read

theorem main_again (there : fs.get? "main" = (mainNode bp).map fun n => ⟨Outline.plain "main", "main", n⟩)
    (there' : fs.get? "handlers" = (handlersNode bp).map fun n => ⟨Outline.plain "handlers", "handlers", n⟩)
    (wide : ∀ n, mainNode bp = some n → n.depth ≤ depth) (wide' : ∀ n, handlersNode bp = some n → n.depth ≤ depth)
    (is : s.Is { devices := bp.devices } {}) :
    Yields (part fs "main" (mainChain depth) >>= fun _ =>
      part fs "handlers" (listPart .handlersNotList (handlers depth))) s ()
      (·.graph = bp.graph) := by
  have behind := reads.handlers
  unfold Blueprint.mainNames Blueprint.mainBlocks at behind
  cases found : bp.main with
  | none =>
    rw [found] at behind
    rw [mainNode, found] at there
    have skipped : Yields (part fs "main" (mainChain depth)) s () (· = s) := yields_absent there rfl
    refine yields_bind skipped ?_
    rintro _ rfl
    obtain ⟨s', run, grown⟩ := handlers_again bp reads plain writable depth fs there' wide' is behind rfl
    refine ⟨s', run, grown.trans ?_⟩
    simp [Blueprint.graph, Blueprint.mainBlocks, found, Graph.append]
  | some whole =>
    obtain ⟨p, start⟩ := whole
    rw [found] at behind
    obtain ⟨here, next, inside⟩ := bp.main_in reads found
    rw [mainNode, found] at wide there
    have deep : Node.depthOfAll (Outline.nodes (Outline.chain bp.graph p.chain)) + 1 ≤ depth := wide _ rfl
    refine yields_bind (yields_present there (yields_main bp.graph plain writable inside
      (plain start (bp.graph.block_mem here)) depth (by omega) is (reads.main p start found))) fun s₁ is => ?_
    obtain ⟨s', run, grown⟩ := handlers_again bp reads plain writable depth fs there' wide' is (by
      simpa [Graph.append, Graph.size] using behind) rfl
    refine ⟨s', run, grown.trans ?_⟩
    simp [Blueprint.graph, Blueprint.mainBlocks, found, Graph.append]

omit fs depth in
theorem program_again : Yields (program (ofGraph bp.graph).node) {} () (·.graph = bp.graph) := by
  rw [of_graph_parts bp reads]
  have apart := top_apart (devicesNode bp) (mainNode bp) (handlersNode bp)
  have known := top_known (devicesNode bp) (mainNode bp) (handlersNode bp)
  have devices_ := top_devices (devicesNode bp) (mainNode bp) (handlersNode bp)
  have enough : ∀ key n, (key, n) ∈ topPairs (devicesNode bp) (mainNode bp) (handlersNode bp) →
      n.depth ≤ (flowMapping (topPairs (devicesNode bp) (mainNode bp) (handlersNode bp))).depth :=
    fun key n mem => (flow_depth _ key n mem).le
  have rest := fun (s : LoadState) (is : s.Is { devices := bp.devices } {}) => main_again bp reads plain writable _ _
    (top_main (devicesNode bp) _ _) (top_handlers _ _ _) (fun n there => enough "main" n (by simp [topPairs, there]))
    (fun n there => enough "handlers" n (by simp [topPairs, there])) is
  have start : LoadState.Is {} {} {} := ⟨rfl, rfl, rfl, by simp⟩
  clear enough
  generalize topPairs (devicesNode bp) (mainNode bp) (handlersNode bp) = pairs at *
  have checked : Yields (checkParts (written pairs)) {} () (· = {}) := by
    rw [checkParts, known]
    exact yields_pure rfl
  unfold program
  unfold flowMapping at rest ⊢
  dsimp only
  rw [fields_written _ apart, pure_bind]
  refine yields_bind checked ?_
  rintro _ rfl
  by_cases empty : bp.devices.isEmpty
  · rw [devicesNode, if_pos empty] at devices_
    have skipped : Yields (part (written pairs) "devices" (listPart .devicesNotList devices)) {} () (· = {}) :=
      yields_absent devices_ rfl
    refine yields_bind skipped ?_
    rintro _ rfl
    rw [List.isEmpty_iff] at empty
    rw [empty] at rest
    exact rest {} start
  · rw [devicesNode, if_neg empty] at devices_
    exact yields_bind (yields_present devices_ (yields_devices start reads.devices)) fun s is => rest s is

theorem of_node_again : ofNode (ofGraph bp.graph).node = .ok bp.graph := by
  obtain ⟨s, run, grown⟩ := program_again bp reads plain writable
  unfold ofNode
  rw [run]
  exact congrArg Except.ok grown

end Programs

end Document

namespace Graph

theorem unplaced_plain (g : Graph) : ∀ b ∈ g.unplaced.blocks, b.unplaced = b := by
  intro b mem
  obtain ⟨c, -, rfl⟩ := Array.mem_map.mp mem
  rfl

theorem Writable.unplaced (g : Graph) (writable : g.Writable) : g.unplaced.Writable := by
  refine ⟨fun b mem => ?_, fun b mem => ?_, fun b mem c found => ?_⟩
  all_goals obtain ⟨b, inside, rfl⟩ := Array.mem_map.mp mem
  · exact writable.zeros b inside
  · exact writable.longs b inside
  · rw [slotBlock?, g.block_unplaced] at found
    obtain ⟨d, there, rfl⟩ := Option.map_eq_some_iff.mp found
    exact writable.indices b inside d there

-- The reader returns for the text of the program the tree that the text stands for. An empty text has none.
def TextRead (g : Graph) : Prop :=
  g.format ≠ "" → ∃ root, Markup.readDocument g.format = .ok (some root) ∧ root.unplaced = (Outline.ofGraph g).node

theorem text_read_iff (g : Graph) : g.TextRead ↔
    (g.format ≠ "" → (Markup.readDocument g.format).toOption.join.map Node.unplaced = some (ofGraph g).node) := by
  unfold TextRead
  refine imp_congr_right fun _ => ?_
  rcases Markup.readDocument g.format with _ | _ | root <;> simp [Except.toOption]

instance (g : Graph) : Decidable g.TextRead := decidable_of_iff _ g.text_read_iff.symm

end Graph

namespace Document

theorem of_node_moved (root : Node) (g : Graph) : ofNode root.unplaced = .ok g.unplaced ↔ ∃ g', ofNode root = .ok g' ∧
    g'.unplaced = g.unplaced := by
  have same := of_node_unplaced root
  cases first : ofNode root <;> cases second : ofNode root.unplaced <;> rw [first, second] at same
  · simp
  · cases same
  · cases same
  · cases same
    simp

theorem format_loads_back (text : String) (g : Graph) (loaded : load text = .ok g) (shown : g.format ≠ "")
    (writable : g.Writable)
    (reader : g.TextRead) : ∃ g', load g.format = .ok g' ∧ g'.unplaced = g.unplaced ∧ g'.format = g.format := by
  obtain ⟨first, -, made⟩ := load_node loaded
  obtain ⟨bp, reads, same⟩ := of_node_reads ((of_node_moved first g).mpr ⟨g, made, rfl⟩)
  have again := of_node_again bp reads (same ▸ g.unplaced_plain) (same ▸ writable.unplaced)
  rw [← same, of_graph_unplaced] at again
  obtain ⟨root, read, tree⟩ := reader shown
  obtain ⟨g', made', equal⟩ := (of_node_moved root g).mp (tree ▸ again)
  refine ⟨g', ?_, equal, ?_⟩
  · rw [load_read read]
    exact made'
  · rw [← g'.format_unplaced, equal, g.format_unplaced]

def variedText : String :=
  "main:\n- \x7bvar: \"a b\", type: \"int[3]\"\x7d\n- for: i\n  step: \x7blit: 2, type: long\x7d\n" ++
    "  do: [\x7bprint: \x7belem: [\x7bref: \"a b\"\x7d, 1]\x7d\x7d]\n" ++
    "handlers:\n- \x7btimes: 3, when: \x7binterrupt: tick\x7d\x7d\n"

set_option maxRecDepth 10000 in
theorem varied_checked :
    (load variedText).toOption.map (fun g => decide (g.format ≠ "" ∧ g.Writable ∧ g.TextRead)) = some true := by
  decide +kernel

theorem varied_program_loads_back : ∃ g, load variedText = .ok g ∧ g.format ≠ "" ∧ g.Writable ∧ g.TextRead ∧
    ∃ g', load g.format = .ok g' ∧ g'.unplaced = g.unplaced ∧ g'.format = g.format := by
  obtain ⟨g, found, checked⟩ := Option.map_eq_some_iff.mp varied_checked
  obtain ⟨shown, writable, reader⟩ := of_decide_eq_true checked
  have loaded := result_ok found
  exact ⟨g, loaded, shown, writable, reader, format_loads_back variedText g loaded shown writable reader⟩

-- The least `long` is written with the fewest digits that stand for the same double; read as an integer they are below
-- it, so they are taken for a double.
def leastLongText : String := "main:\n- print: -9223372036854775808\n"

set_option maxRecDepth 10000 in
theorem least_long_changes : ∃ g g', load leastLongText = .ok g ∧ g.TextRead ∧ load g.format = .ok g' ∧
    g.format = "main:\n  - print: -9223372036854776000\n" ∧
      (g.block? 2).map (fun b => (b.kind, b.number?, b.type)) = some (.literal, some (.ofInt (-2 ^ 63)), some .long) ∧
        (g'.block? 2).map (fun b => (b.kind, b.number?, b.type)) = some
          (.literal, some (.ofInt (-2 ^ 63)), some .double) := by
  have shown : (load leastLongText).toOption.bind (fun g => (load g.format).toOption.map fun g' => decide (g.TextRead ∧
      g.format = "main:\n  - print: -9223372036854776000\n" ∧
        (g.block? 2).map (fun b => (b.kind, b.number?, b.type)) = some (.literal, some (.ofInt (-2 ^ 63)), some .long) ∧
          (g'.block? 2).map (fun b => (b.kind, b.number?, b.type)) = some
            (.literal, some (.ofInt (-2 ^ 63)), some .double))) =
      some true := by
    decide +kernel
  obtain ⟨g, loaded, shown⟩ := Option.bind_eq_some_iff.mp shown
  obtain ⟨g', reloaded, shown⟩ := Option.map_eq_some_iff.mp shown
  obtain ⟨reader, facts⟩ := of_decide_eq_true shown
  exact ⟨g, g', result_ok loaded, reader, result_ok reloaded, facts⟩

end Document

end Blockwork
