import Aedis.Resp3.Composer
import Aedis.Resp3.Stream
import Aedis.Connection.Basic

namespace Aedis.Resp3

/-- Modelled from the spec: `add_header(to, size)` is only declared in `composer.hpp`; it writes
the array header `*<size>\r\n`. -/
def addHeader (buf : List String) (size : Nat) : List String :=
  buf ++ ["*" ++ toString size ++ "\r\n"]

def ArgType.args : (T : ArgType) → T.Val → List String
  | .pair A B, x => A.args x.1 ++ B.args x.2
  | .scalar, x => [Int.repr x]
  | .string, x => [x]
  | .stringView, x => [x]
  | .charPtr, x => [x]
  | .charConstPtr, x => [x]
  | .charArray _, x => [x]
  | .charConstArray _, x => [x]

theorem ArgType.length_args (T : ArgType) (x : T.Val) : (T.args x).length = T.leaves := by
  induction T with
  | pair A B ihA ihB => simp [args, leaves, ihA, ihB]
  | _ => rfl

theorem addBulk_eq_foldl (buf : List String) (T : ArgType) (x : T.Val) :
    addBulk buf T x = (T.args x).foldl addBulkView buf := by
  induction T generalizing buf with
  | pair A B ihA ihB => simp [addBulk, ArgType.args, ihA, ihB, List.foldl_append]
  | _ => rfl

def blob (s : String) : Value := .leaf .blobString (bytes s)

theorem encode_blob (s : String) :
    (blob s).encode = DataType.blobString.code :: (decimal (bytes s).length ++ 13 :: 10 :: (bytes s ++ [13, 10])) :=
  rfl

theorem bytes_crlf : bytes "\r\n" = [13, 10] := rfl

theorem bytes_addBulkView (buf : List String) (s : String) :
    bytes (String.join (addBulkView buf s)) = bytes (String.join buf) ++ (blob s).encode := by
  simp only [addBulkView, bytes_join, List.map_append, List.flatten_append, List.map_cons,
    List.map_nil, List.flatten_cons, List.flatten_nil, List.append_nil, bytes_append,
    bytes_toString, ← length_bytes, bytes_crlf, encode_blob, List.append_assoc, List.cons_append,
    List.nil_append]
  rfl

theorem bytes_foldl_addBulkView (l : List String) (buf : List String) :
    bytes (String.join (l.foldl addBulkView buf)) =
      bytes (String.join buf) ++ Value.encodeAll (l.map blob) := by
  induction l generalizing buf with
  | nil => simp [Value.encodeAll]
  | cons s l ih => simp [ih, bytes_addBulkView, Value.encodeAll]

def argStrings (args : List ((T : ArgType) × T.Val)) : List String :=
  args.flatMap fun a => a.1.args a.2

theorem length_argStrings (args : List ((T : ArgType) × T.Val)) :
    (argStrings args).length = (args.map (·.1.leaves)).sum := by
  simp [argStrings, List.length_flatMap, Function.comp_def, ArgType.length_args]

theorem foldl_addBulk (args : List ((T : ArgType) × T.Val)) (buf : List String) :
    args.foldl (fun buf a => addBulk buf a.1 a.2) buf = (argStrings args).foldl addBulkView buf := by
  induction args generalizing buf with
  | nil => rfl
  | cons a args ih =>
    rw [List.foldl_cons, ih, addBulk_eq_foldl]
    simp only [argStrings, List.flatMap_cons, List.foldl_append]

/-- Modelled from the spec: `request::push(cmd, args...)` writes the array header counting the
bulks of the command, the command's name, then the bulks of each argument. -/
def command (cmd : String) (args : List ((T : ArgType) × T.Val)) : List String :=
  args.foldl (fun buf a => addBulk buf a.1 a.2)
    (addBulkView (addHeader [] (1 + (args.map (·.1.leaves)).sum)) cmd)

theorem bytes_command (cmd : String) (args : List ((T : ArgType) × T.Val)) :
    bytes (String.join (command cmd args)) =
      (Value.aggregate .array ((cmd :: argStrings args).map blob)).encode := by
  rw [command, foldl_addBulk, bytes_foldl_addBulkView, bytes_addBulkView]
  have hm : (1 + (argStrings args).length) / DataType.array.elementMultiplicity =
      1 + (args.map (·.1.leaves)).sum := by
    simp [DataType.elementMultiplicity, length_argStrings]
  simp only [addHeader, bytes_join, List.map_cons, List.map_nil, List.flatten_cons,
    List.flatten_nil, List.append_nil, bytes_append, bytes_toString, bytes_crlf, Value.encode,
    Value.encodeAll, List.length_cons, List.length_map, Nat.add_comm _ 1, hm, List.append_assoc,
    List.cons_append, List.nil_append]
  rfl

theorem allWellFormed_map_blob (l : List String) :
    Value.allWellFormed false (l.map blob) = true := by
  induction l with
  | nil => rfl
  | cons s l ih =>
    simpa [Value.allWellFormed, Value.wellFormed, blob, DataType.isAggregate, DataType.isBulk]
      using ih

theorem nodesAll_map_blob (d : Nat) (l : List String) :
    Value.nodesAll d (l.map blob) =
      l.map fun s => ⟨(bytes s).length, d, .blobString, bytes s⟩ := by
  induction l with
  | nil => rfl
  | cons s l ih => simp [Value.nodesAll, Value.nodes, blob, ih]

theorem wellFormed_command (cmd : String) (args : List ((T : ArgType) × T.Val)) :
    (Value.aggregate .array ((cmd :: argStrings args).map blob)).wellFormed = true := by
  simp only [Value.wellFormed, allWellFormed_map_blob, DataType.elementMultiplicity, Nat.mod_one]
  rfl

theorem nodes_command (cmd : String) (args : List ((T : ArgType) × T.Val)) :
    (Value.aggregate .array ((cmd :: argStrings args).map blob)).nodes 0 =
      ⟨1 + (args.map (·.1.leaves)).sum, 0, .array, []⟩ ::
        (cmd :: argStrings args).map (fun s => ⟨(bytes s).length, 1, .blobString, bytes s⟩) := by
  rw [Value.nodes, nodesAll_map_blob]
  simp [DataType.elementMultiplicity, length_argStrings, Nat.add_comm]

theorem parse_command (cmd : String) (args : List ((T : ArgType) × T.Val)) (rest : List UInt8) :
    parse (bytes (String.join (command cmd args)) ++ rest) =
      .ok (some (⟨1 + (args.map (·.1.leaves)).sum, 0, .array, []⟩ ::
        (cmd :: argStrings args).map (fun s => ⟨(bytes s).length, 1, .blobString, bytes s⟩),
        rest)) := by
  rw [bytes_command, parse, parseLoop_encode _ [some 1] [] rest (wellFormed_command cmd args)
    (List.cons_ne_nil _ _) (fun h => by cases h), show advance [some 1] = [] from rfl,
    parseLoop_nil, List.nil_append]
  simp only [List.length_singleton, Nat.sub_self, nodes_command]

end Aedis.Resp3

namespace Aedis

open Resp3

structure Cmd where
  name : String
  args : List ((T : ArgType) × T.Val)

def Cmd.nodes (c : Cmd) : List Node :=
  ⟨1 + (c.args.map (·.1.leaves)).sum, 0, .array, []⟩ ::
    (c.name :: argStrings c.args).map fun s => ⟨(bytes s).length, 1, .blobString, bytes s⟩

/-- Modelled from the repository: `has_push_response` is only declared in `composer.hpp`; the
commands of `command.hpp` whose replies come as pushes, not as replies to the request. -/
def hasPushResponse (name : String) : Bool :=
  name == "SUBSCRIBE" || name == "PSUBSCRIBE" || name == "UNSUBSCRIBE"

namespace Request

/-- Modelled from the spec: a request with no command yet, of the given config. -/
def ofConfig (coalesce closeOnRunCompletion helloWithPriority : Bool) : Request :=
  ⟨"", 0, [], coalesce, closeOnRunCompletion, helloWithPriority⟩

/-- Modelled from the spec: `request::push(cmd, args...)` appends the command to the payload, as
the composer writes it, and counts it unless its replies come as pushes. -/
def push (r : Request) (c : Cmd) : Request :=
  { r with payload := r.payload ++ String.join (command c.name c.args),
           size := if hasPushResponse c.name then r.size else r.size + 1,
           commands := r.commands ++ [c.name] }

theorem frames_push {r : Request} {fs : List (List Node)} (c : Cmd)
    (h : frames (bytes r.payload) = .ok (fs, [])) :
    frames (bytes (r.push c).payload) = .ok (fs ++ [c.nodes], []) := by
  have hv : ∀ v ∈ [Value.aggregate .array ((c.name :: argStrings c.args).map blob)],
      v.wellFormed = true := by
    simpa using wellFormed_command c.name c.args
  have hc := frames_encodeAll _ hv parse_nil
  simp only [Value.encodeAll, List.append_nil, List.map_singleton] at hc
  rw [push, bytes_append, bytes_command, frames_append, h]
  show (frames ([] ++ _)).map _ = _
  rw [List.nil_append, hc, nodes_command]
  rfl

theorem frames_foldl_push {r : Request} {fs : List (List Node)} (cs : List Cmd)
    (h : frames (bytes r.payload) = .ok (fs, [])) :
    frames (bytes (cs.foldl push r).payload) = .ok (fs ++ cs.map Cmd.nodes, []) ∧
      (cs.foldl push r).size = r.size + (cs.filter fun c => !hasPushResponse c.name).length ∧
      (cs.foldl push r).commands = r.commands ++ cs.map (·.name) := by
  induction cs generalizing r fs with
  | nil => simpa using h
  | cons c cs ih =>
    obtain ⟨hf, hs, hn⟩ := ih (frames_push c h)
    refine ⟨by simpa using hf, ?_, by rw [List.foldl_cons, hn]; simp [push]⟩
    rw [List.foldl_cons, hs]
    by_cases hp : hasPushResponse c.name <;> simp [push, hp, List.filter_cons]
    omega

example :
    ([⟨"HELLO", [⟨.scalar, (3 : Int)⟩]⟩, ⟨"PING", []⟩, ⟨"SUBSCRIBE", [⟨.string, "channel"⟩]⟩,
      ⟨"QUIT", []⟩].foldl push (ofConfig true false false)).size = 3 := by
  decide

end Request

end Aedis
