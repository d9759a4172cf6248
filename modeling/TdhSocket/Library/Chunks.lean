import Mathlib.Data.List.Basic

/-!
# A stream taken from a chain of chunks

A chain of chunks, each with its contents and its name, is taken from the front: a part of the
first chunk is taken and the chunk is replaced by one with the rest under the same name, or all of
it is taken and the chunk is dropped. `Accepts` relates what was taken, the names of the dropped
chunks and the chain that is left; it composes, and chunks may be added behind.
-/

set_option autoImplicit false

namespace TdhSocket.Library

variable {Chunk Element Name : Type} {content : Chunk → List Element} {name : Chunk → Name}

/-- Some elements are taken from the front of a chain: the names of the chunks dropped, and the
chain that is left. -/
inductive Accepts (content : Chunk → List Element) (name : Chunk → Name) :
    List Element → List Chunk → List Name → List Chunk → Prop
  | stop (chain : List Chunk) : Accepts content name [] chain [] chain
  | part {taken : List Element} {chunk left : Chunk} (rest : List Chunk)
      (hname : name left = name chunk) (hcontent : taken ++ content left = content chunk) :
      Accepts content name taken (chunk :: rest) [] (left :: rest)
  | whole {taken : List Element} {rest chain : List Chunk} {dropped : List Name} (chunk : Chunk)
      (hrest : Accepts content name taken rest dropped chain) :
      Accepts content name (content chunk ++ taken) (chunk :: rest) (name chunk :: dropped) chain

namespace Accepts

variable {after : List Chunk} {dropped : List Name} {taken : List Element} {chain : List Chunk}

section

variable (haccepts : Accepts content name taken chain dropped after)

include haccepts

end

/-- Two takings one after the other are one. -/
theorem trans {first second : List Element} {chain middle : List Chunk}
    {droppedFirst droppedSecond : List Name}
    (hfirst : Accepts content name first chain droppedFirst middle)
    (hsecond : Accepts content name second middle droppedSecond after) :
    Accepts content name (first ++ second) chain (droppedFirst ++ droppedSecond) after := by
  induction hfirst with
  | stop chain => exact hsecond
  | part rest hname hcontent =>
    cases hsecond with
    | stop => simpa using part rest hname hcontent
    | part _ hname' hcontent' =>
      refine part rest (hname'.trans hname) ?_
      rw [List.append_assoc, hcontent', hcontent]
    | whole _ hrest =>
      rw [← List.append_assoc, hcontent, hname]
      exact whole _ hrest
  | whole chunk hrest ih =>
    rw [List.append_assoc]
    exact whole chunk (ih hsecond)

/-- Chunks behind the chain are left. -/
theorem append
    (haccepts : Accepts content name taken chain dropped after) (further : List Chunk) :
    Accepts content name taken (chain ++ further) dropped (after ++ further) := by
  induction haccepts with
  | stop chain => exact stop _
  | part rest hname hcontent => exact part (rest ++ further) hname hcontent
  | whole chunk hrest ih => exact whole chunk ih

end Accepts

end TdhSocket.Library
