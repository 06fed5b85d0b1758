import MessageCatalog.Json.Scalar

namespace MessageCatalog.Json

inductive Frame where
  | list
  | object

def Frame.closing : Frame → Char
  | list => ']'
  | object => '\x7d'

def skipScalar : List Char → Except Problem (List Char)
  | 'n' :: cs => word ['u', 'l', 'l'] cs
  | 't' :: cs => word ['r', 'u', 'e'] cs
  | 'f' :: cs => word ['a', 'l', 's', 'e'] cs
  | '"' :: cs => skipChars cs
  | '-' :: cs => skipNumber cs
  | [] => .error .truncated
  | c :: cs => if c.isDigit then skipNumber (c :: cs) else .error .malformed

def skipKey (cs : List Char) : Except Problem (List Char) :=
  match skipBlank cs with
  | [] => .error .truncated
  | '"' :: cs => do
    match skipBlank (← skipChars cs) with
    | [] => .error .truncated
    | ':' :: rest => return rest
    | _ => .error .malformed
  | _ => .error .malformed

mutual

def skipWithin : Nat → List Frame → List Char → Except Problem (List Char)
  | 0, _, _ => .error .truncated
  | fuel + 1, frames, cs =>
    match skipBlank cs with
    | '[' :: rest => skipRest fuel false (.list :: frames) rest
    | '\x7b' :: rest => skipRest fuel false (.object :: frames) rest
    | rest => do skipRest fuel true frames (← skipScalar rest)

def skipRest : Nat → Bool → List Frame → List Char → Except Problem (List Char)
  | _, _, [], cs => .ok cs
  | 0, _, _ :: _, _ => .error .truncated
  | fuel + 1, afterValue, frame :: frames, cs =>
    match skipBlank cs with
    | [] => .error .truncated
    | c :: rest =>
      if c = frame.closing then skipRest fuel true frames rest
      else if !afterValue then skipMember fuel frame frames (c :: rest)
      else if c = ',' then skipMember fuel frame frames rest
      else .error .malformed

def skipMember : Nat → Frame → List Frame → List Char → Except Problem (List Char)
  | 0, _, _, _ => .error .truncated
  | fuel + 1, .list, frames, cs => skipWithin fuel (.list :: frames) cs
  | fuel + 1, .object, frames, cs => do skipWithin fuel (.object :: frames) (← skipKey cs)

end

def skip (cs : List Char) : Except Problem (List Char) :=
  -- each character is reached in at most three steps
  skipWithin (3 * cs.length + 3) [] cs

end MessageCatalog.Json
