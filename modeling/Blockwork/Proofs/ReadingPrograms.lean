import Blockwork.Proofs.ReadingChains

set_option autoImplicit false

namespace Blockwork

open List

variable {g : Graph}

open Markup (Node NodeList EntryList Scalar)

structure Blueprint where
  devices : List Device
  main : Option (Plan × Block)
  handlers : List Head

namespace Blueprint

def mainBlocks (bp : Blueprint) : List Block :=
  match bp.main with
  | none => []
  | some (p, start) => p.blocks ++ [start]

def graph (bp : Blueprint) : Graph where
  blocks := (bp.mainBlocks ++ bp.handlers.flatMap Head.blocks).toArray
  devices := bp.devices
  main := match bp.main with
    | none => 0
    | some (_, start) => start.id
  handlers := bp.handlers.map (·.block.id)

def DevicesRead (ds : List Device) : Prop :=
  (ds.map Device.name).Nodup ∧ ∀ d ∈ ds, d.name ≠ "" ∧ ∃ type text, d.type = some type ∧ ValueType.parse text = .ok type

def MainReads (names : Names) (k : Nat) (p : Plan) (start : Block) : Prop :=
  p.Reads false names.fresh k (k + p.blocks.length) ∧ start.Placed (k + p.blocks.length) 0 p.id 0 0 [] ∧
    start.content = { kind := .start }

-- Names of the main chain and of earlier handlers are known in a handler, but not as its own.
def HandlersRead (names : Names) (k : Nat) : List Head → Prop
  | [] => True
  | h :: rest =>
    h.single.Reads true names.fresh k 0 ∧ h.block.kind = .when ∧
      HandlersRead (h.single.after names.fresh) (k + h.blocks.length) rest

def mainNames (bp : Blueprint) : Names :=
  match bp.main with
  | none => {}
  | some (p, _) => p.after (Names.fresh {})

structure Reads (bp : Blueprint) : Prop where
  devices : DevicesRead bp.devices
  main : ∀ p start, bp.main = some (p, start) → MainReads {} 1 p start
  handlers : HandlersRead bp.mainNames (bp.mainBlocks.length + 1) bp.handlers

end Blueprint

theorem Plan.join_length (parent : Nat) (hs : List Head) :
    (Plan.join parent hs).blocks.length = (hs.flatMap Head.blocks).length := by
  induction hs generalizing parent with
  | nil => rfl
  | cons h rest hyp =>
    simp [Plan.join, Plan.blocks, Head.blocks, Head.inner, hyp]

namespace Graph

variable {bs : List Block} {ids : List Nat} {hs : List Head}

theorem modify_append_left (g : Graph) {id : Nat} {f : Block → Block} (inside : id ≤ g.size) :
    (g.append bs).modify id f = (g.modify id f).append bs := by
  unfold modify append
  by_cases zero : id = 0
  · simp [zero]
  · simp only [zero, if_false, Graph.mk.injEq, and_true]
    have within : id - 1 < g.blocks.size := by
      unfold size at inside
      omega
    apply Array.ext_getElem?
    intro i
    simp only [Array.getElem?_modify, Array.getElem?_append, Array.size_modify]
    by_cases here : id - 1 = i
    · simp [here ▸ within]
    · simp [here]

theorem chain_append (inside : ∀ id ∈ ids, id ≤ g.size) :
    (g.append bs).chain ids = ((g.chain ids).1, (g.chain ids).2.append bs) := by
  have links : ∀ (links : List (Nat × Nat)) (g : Graph), (∀ p ∈ links, p.1 ≤ g.size ∧ p.2 ≤ g.size) →
      links.foldl (fun g p => g.link p.1 p.2) (g.append bs) =
        (links.foldl (fun g p => g.link p.1 p.2) g).append bs := by
    intro links
    induction links with
    | nil => exact fun _ _ => rfl
    | cons p links hyp =>
      intro g inside
      obtain ⟨first, second⟩ := inside p mem_cons_self
      have linked : (g.append bs).link p.1 p.2 = (g.link p.1 p.2).append bs := by
        unfold link
        rw [g.modify_append_left first, modify_append_left _ (by rwa [size_modify])]
      have size : (g.link p.1 p.2).size = g.size := by
        unfold link
        rw [size_modify, size_modify]
      rw [foldl_cons, foldl_cons, linked]
      refine hyp _ fun q mem => ?_
      rw [size]
      exact inside q (mem_cons_of_mem p mem)
  cases ids with
  | nil => rfl
  | cons first rest =>
    refine Prod.ext rfl (links _ g fun p mem => ?_)
    have pair : (p.1, p.2) ∈ (first :: rest).zip rest := mem
    exact ⟨inside _ (of_mem_zip pair).1, inside _ (mem_cons_of_mem first (of_mem_zip pair).2)⟩

theorem row_inside (k : Nat) (numbered : RowNumbered k hs) :
    ∀ h ∈ hs, k + (hs.flatMap Head.blocks).length > h.block.id := by
  induction hs generalizing k with
  | nil => simp
  | cons h rest hyp =>
    obtain ⟨number, -, numbered⟩ := numbered
    intro h' mem
    rw [flatMap_cons, length_append]
    rcases mem_cons.mp mem with rfl | mem
    · rw [number]
      simp [Head.blocks]
    · have := hyp _ numbered h' mem
      omega

theorem start_row (g : Graph) (b : Block) (numbered : RowNumbered (g.size + 1) hs)
    (loose : ∀ h ∈ hs.head?, h.block.parent = 0) (open_ : b.next = 0)
    (own : g.size + 1 + (hs.flatMap Head.blocks).length = b.id) (first : Nat) (g' : Graph)
    (chained : ((g.append (hs.flatMap Head.blocks)).append [b]).chain (hs.map (·.block.id)) = (first, g')) :
    (if first = 0 then g' else g'.link b.id first) =
      g.append ((Plan.join b.id hs).blocks ++ [{ b with next := (Plan.join b.id hs).id }]) := by
  have inside : ∀ id ∈ hs.map (·.block.id), id ≤ (g.append (hs.flatMap Head.blocks)).size := by
    intro id inner
    obtain ⟨h, mem, rfl⟩ := mem_map.mp inner
    have := row_inside _ numbered h mem
    rw [size_append]
    omega
  rw [chain_append inside, g.chain_row numbered loose] at chained
  obtain ⟨rfl, rfl⟩ := Prod.mk.inj chained
  cases hs with
  | nil =>
    have same : { b with next := 0 } = b := by rw [← open_]
    simp [Plan.join, Plan.id, same]
  | cons h rest =>
    have number : ∀ parent, (Plan.join parent (h :: rest)).id = g.size + 1 := fun _ => numbered.1
    have last : b.id = g.size + (Plan.join 0 (h :: rest)).blocks.length + 1 := by
      rw [← own, Plan.join_length]
      exact Nat.add_right_comm _ _ _
    rw [if_neg (by rw [number]; omega), append_append, link, g.modify_append _ [] b _ _ last, number 0, number b.id]
    exact g.modify_head _ _ _

theorem keeps_started (g g' : Graph) {first : Nat} (start : Nat) (chained : g.chain ids = (first, g')) :
    g.Keeps (if first = 0 then g' else g'.link start first) := by
  have kept := g.keeps_chain ids
  rw [chained] at kept
  split_ifs
  · exact kept
  · exact kept.trans (g'.keeps_link _ _)

end Graph

namespace Document

variable {s s' : LoadState} {names : Names} {f : Field} {u : Unit} {fs : Fields} {root : Node} {text : String}

theorem LoadState.Matches.fresh (known : s.Matches names) :
    LoadState.Matches { s with frames := [[]] } names.fresh := by
  refine ⟨rfl, known.declared, fun e mem => known.blocks e ?_⟩
  simp only [Names.fresh, flatten_cons, flatten_nil, append_nil, nil_append] at mem
  exact mem_append_right _ mem

theorem reads_main {depth : Nat} (known : s.Matches names) (result : (mainChain depth f).run s = .ok (u, s')) :
    ∃ (p : Plan) (start : Block), Blueprint.MainReads names (s.graph.size + 1) p start ∧
      s'.Matches (p.after names.fresh) ∧ s'.graph = { s.graph.append (p.blocks ++ [start]) with main := start.id } := by
  obtain ⟨_, s₁, opened, run⟩ := run_bind_ok.mp result
  cases opened
  obtain ⟨ids, s₂, read, run₂⟩ := run_bind_ok.mp run
  obtain ⟨hs, rfl, row, grown, known⟩ := reads_chain (readers depth) (reads_readers depth)
    (known.fresh) read
  obtain ⟨start, s₃, added, run₃⟩ := run_bind_ok.mp run₂
  obtain ⟨rfl, known, -, -, line, column, grown'⟩ := add_run id known added
  obtain ⟨_, _, got, rest⟩ := run_bind_ok.mp run₃
  cases got
  rcases chained : s₃.graph.chain (hs.map (·.block.id)) with ⟨first, g⟩
  have size : s₂.graph.size + 1 = s.graph.size + 1 + (hs.flatMap Head.blocks).length := by
    rw [grown, Graph.size_append]
    exact Nat.add_right_comm _ _ _
  have started := s.graph.start_row { id := s₂.graph.size + 1, kind := .start, line, column }
    (Graph.row_numbered _ _ row) (by
    intro h head
    cases hs with
    | nil => cases head
    | cons h' rest =>
      cases head
      exact row.1.1.parent) rfl size.symm first g (by rw [← chained, grown', grown]; rfl)
  have keeps := s₃.graph.keeps_started g (s₂.graph.size + 1) chained
  simp only [chained] at rest
  cases rest
  let start : Block :=
    { id := s₂.graph.size + 1, kind := .start, line, column, next := (Plan.join (s₂.graph.size + 1) hs).id }
  refine ⟨Plan.join (s₂.graph.size + 1) hs, start, ⟨?_, ⟨?_, rfl, rfl, rfl, rfl, rfl⟩, rfl⟩, ?_, ?_⟩
  · rw [Plan.join_length, ← size]
    exact Plan.join_reads _ _ _ row
  · rw [Plan.join_length]
    exact size
  · rw [Plan.join_after]
    exact known.keeps _ keeps rfl rfl
  · exact congrArg (fun g : Graph => { g with main := s₂.graph.size + 1 }) started

theorem reads_handlers {depth : Nat} {items : NodeList} {names : Names} {s s' : LoadState} {u : Unit}
    (known : s.Matches names) (result : (handlers depth items).run s = .ok (u, s')) :
    ∃ hs : List Head, Blueprint.HandlersRead names (s.graph.size + 1) hs ∧
      s'.graph =
        { s.graph.append (hs.flatMap Head.blocks) with handlers := s.graph.handlers ++ hs.map (·.block.id) } := by
  match items with
  | .nil =>
    cases result
    exact ⟨[], trivial, by simp⟩
  | .cons item rest =>
    unfold handlers at result
    split at result
    · obtain ⟨fs, s₁, read, run⟩ := run_bind_ok.mp result
      obtain ⟨same, -⟩ := fields_run read
      subst same
      dsimp only at run
      split_ifs at run with given
      · obtain ⟨_, _, failed, -⟩ := run_bind_ok.mp run
        cases failed
      · obtain ⟨_, s₂, opened, run₂⟩ := run_bind_ok.mp run
        cases opened
        obtain ⟨a, s₃, made, run₃⟩ := run_bind_ok.mp run₂
        cases depth with
        | zero => cases made
        | succ depth =>
          have ⟨h, s₄, ⟨number, reads, grown, known⟩, kind, listed⟩ := reads_handler_with
            ⟨operand (depth + 1), statement (operand (depth + 1)) depth false⟩ (reads_operand _)
              (reads_statement _ (reads_operand _) _)
            names.fresh _ s₃ a (known.fresh) (by simpa using given) made
          have known := known.keeps s₃ (by rw [listed]; exact fun id b found => ⟨b, found, rfl⟩) (by rw [listed])
            (by rw [listed])
          obtain ⟨hs, row, grown'⟩ := reads_handlers known run₃
          have own : h.block.id = a := by rw [number]; exact reads.1.id
          have size : s₃.graph.size + 1 = s₁.graph.size + 1 + h.blocks.length := by
            rw [listed]
            change s₄.graph.size + 1 = _
            rw [grown, Graph.size_append]
            exact Nat.add_right_comm _ _ _
          refine ⟨h :: hs, ⟨reads, kind, size ▸ row⟩, ?_⟩
          rw [grown', listed, grown, ← own]
          simp [Graph.append]
    · cases result

theorem reads_devices {items : NodeList} {s s' : LoadState} {u : Unit} (old : Blueprint.DevicesRead s.graph.devices)
    (result : (devices items).run s = .ok (u, s')) :
    ∃ ds, Blueprint.DevicesRead ds ∧ s' = { s with graph := { s.graph with devices := ds } } := by
  match items with
  | .nil =>
    cases result
    exact ⟨s.graph.devices, old, rfl⟩
  | .cons item rest =>
    have entered : ∀ (name : String) (type : ValueType), name ≠ "" → (∃ text, ValueType.parse text = .ok type) →
        ¬ (s.graph.device? name).isSome = true →
        (onGraph (fun g => { g with devices := g.devices ++ [{ name, type := some type }] }) >>= fun _ =>
          devices rest).run s =
          .ok (u, s') → ∃ ds, Blueprint.DevicesRead ds ∧ s' = { s with graph := { s.graph with devices := ds } } := by
      intro name type named readable new run
      obtain ⟨text, readable⟩ := readable
      obtain ⟨_, s₁, listed, others⟩ := run_bind_ok.mp run
      cases listed
      obtain ⟨ds, read, same⟩ := reads_devices (by
        refine ⟨?_, fun d mem => ?_⟩
        · have apart : name ∉ s.graph.devices.map Device.name := by
            intro used
            obtain ⟨d, mem, rfl⟩ := mem_map.mp used
            exact new (find?_isSome.mpr ⟨d, mem, by simp⟩)
          rw [map_append]
          exact nodup_append.mpr ⟨old.1, by simp, fun a before b last same => by
            rw [map_singleton, mem_singleton] at last
            rw [same, last] at before
            exact apart before⟩
        · rcases mem_append.mp mem with before | here
          · exact old.2 d before
          · rw [mem_singleton.mp here]
            exact ⟨named, type, text, rfl, readable⟩) others
      exact ⟨ds, read, same⟩
    unfold devices at result
    split at result
    · obtain ⟨fs, s₁, read, run⟩ := run_bind_ok.mp result
      obtain ⟨same, -⟩ := fields_run read
      subst same
      have typed : ∀ (n item : Node) (name : String), name ≠ "" → (typeOf fs item >>= fun type => get >>= fun s =>
          if (s.graph.device? name).isSome = true then (fail n (.deviceTwice name) >>= fun (_ : PUnit) =>
            onGraph (fun g => { g with devices := g.devices ++ [{ name, type := some type }] }) >>= fun _ =>
              devices rest)
          else onGraph (fun g => { g with devices := g.devices ++ [{ name, type := some type }] }) >>= fun _ =>
            devices rest).run s₁ = .ok (u, s') →
          ∃ ds, Blueprint.DevicesRead ds ∧ s' = { s₁ with graph := { s₁.graph with devices := ds } } := by
        intro n item name named run
        obtain ⟨type, s₂, read, run₂⟩ := run_bind_ok.mp run
        obtain ⟨same, readable⟩ := type_run read
        subst same
        obtain ⟨_, _, got, rest⟩ := run_bind_ok.mp run₂
        cases got
        split_ifs at rest with twice
        · obtain ⟨_, _, failed, -⟩ := run_bind_ok.mp rest
          cases failed
        · exact entered name type named readable twice rest
      dsimp only at run
      split at run
      · obtain ⟨n, s₂, found, run₂⟩ := run_bind_ok.mp run
        cases found
        split at run₂
        · split_ifs at run₂ with empty
          · obtain ⟨_, _, failed, -⟩ := run_bind_ok.mp run₂
            cases failed
          · obtain ⟨name, s₃, found, run₃⟩ := run_bind_ok.mp run₂
            cases found
            exact typed _ _ _ (by simpa using empty) run₃
        · obtain ⟨_, _, failed, -⟩ := run_bind_ok.mp run₂
          cases failed
      · obtain ⟨_, _, failed, -⟩ := run_bind_ok.mp run
        cases failed
    · cases result

theorem check_run (run : (checkParts fs).run s = .ok (u, s')) : s' = s := by
  unfold checkParts at run
  split at run
  · cases run
  · cases run
    rfl

theorem part_run {name : String} {read : Field → Loading Unit} (run : (part fs name read).run s = .ok (u, s')) :
    s' = s ∨ ∃ f, (read f).run s = .ok (u, s') := by
  unfold part at run
  split at run
  · exact .inr ⟨_, run⟩
  · cases run
    exact .inl rfl

theorem list_run {fault : NodeFault} {read : NodeList → Loading Unit}
    (run : (listPart fault read f).run s = .ok (u, s')) : ∃ items, (read items).run s = .ok (u, s') := by
  unfold listPart at run
  split at run
  · exact ⟨_, run⟩
  · cases run

theorem reads_program {root : Node} {s : LoadState} {u : Unit} (result : (program root).run {} = .ok (u, s)) :
    ∃ bp : Blueprint, bp.Reads ∧ s.graph = bp.graph := by
  cases root with
  | mapping place entries =>
    obtain ⟨fs, s₁, read, run⟩ := run_bind_ok.mp result
    obtain ⟨same, -⟩ := fields_run read
    subst same
    obtain ⟨_, s₁, checked, run⟩ := run_bind_ok.mp run
    obtain rfl := check_run checked
    obtain ⟨_, s₁, listed, run⟩ := run_bind_ok.mp run
    obtain ⟨_, s₂, begun, rest⟩ := run_bind_ok.mp run
    obtain ⟨ds, devices, rfl⟩ : ∃ ds, Blueprint.DevicesRead ds ∧ s₁ = { graph := { devices := ds } } := by
      rcases part_run listed with rfl | ⟨f, listed⟩
      · exact ⟨[], ⟨by simp, by simp⟩, rfl⟩
      · obtain ⟨items, listed⟩ := list_run listed
        obtain ⟨ds, devices, same⟩ := reads_devices ⟨by simp, by simp⟩ listed
        exact ⟨ds, devices, same⟩
    have handled : ∀ names : Names, s₂.Matches names → ∃ hs : List Head, Blueprint.HandlersRead names
      (s₂.graph.size + 1) hs ∧ s.graph =
          { s₂.graph.append (hs.flatMap Head.blocks) with handlers := s₂.graph.handlers ++ hs.map (·.block.id) } := by
      intro names known
      rcases part_run rest with rfl | ⟨f, rest⟩
      · exact ⟨[], trivial, by simp⟩
      · obtain ⟨items, rest⟩ := list_run rest
        exact reads_handlers known rest
    have known : LoadState.Matches { graph := { devices := ds } } {} := ⟨rfl, rfl, by simp⟩
    rcases part_run begun with rfl | ⟨f, begun⟩
    · obtain ⟨hs, row, last⟩ := handled _ known
      exact ⟨⟨ds, none, hs⟩,
        ⟨devices, by simp, row⟩, by rw [last]; simp [Graph.append, Blueprint.graph, Blueprint.mainBlocks]⟩
    · obtain ⟨p, start, reads, known, grown⟩ := reads_main known begun
      obtain ⟨hs, row, last⟩ := handled _ known
      have empty : s₂.graph.size = (p.blocks ++ [start]).length := by
        rw [grown]
        simp [Graph.append, Graph.size]
      refine ⟨⟨ds, some (p, start), hs⟩, ⟨devices, ?_, empty ▸ row⟩, ?_⟩
      · rintro _ _ ⟨⟩
        exact reads
      · rw [last, grown]
        simp [Graph.append, Blueprint.graph, Blueprint.mainBlocks]
  | _ => cases result

theorem of_node_reads (made : ofNode root = .ok g) : ∃ bp : Blueprint, bp.Reads ∧ g = bp.graph := by
  unfold ofNode at made
  split at made
  · next u s run =>
      cases made
      exact reads_program run
  · cases made

theorem load_node (loaded : load text = .ok g) :
    ∃ root, Markup.readDocument text = .ok (some root) ∧ ofNode root = .ok g := by
  unfold load at loaded
  split at loaded
  · cases loaded
  · cases loaded
  · next root read => exact ⟨root, read, loaded⟩

theorem load_read (read : Markup.readDocument text = .ok (some root)) : load text = ofNode root := by
  unfold load
  rw [read]

end Document

end Blockwork
