import ExtensionLock.Yaml.Token

/-! Configuration files in words: mappings and lists by indentation or in brackets, quoted texts,
comments. Words without quotes stay as they are written, since it is their reader who knows what
they are to mean. A document that uses more of the language is refused. -/

namespace ExtensionLock.Yaml

def nothing : Draft := .plain ""

def fieldName : Draft → Option String
  | .plain word => some word
  | .string s => s
  | _ => none

def endsBlockNode (t : Token) : Bool := t == .key || t == .value || t == .blockEnd

mutual

def takeNode : Nat → Bool → Bool → List Token → Option (Draft × List Token)
  | 0, _, _, _ => none
  | fuel + 1, block, underField, tokens =>
    match tokens with
    | .plain word :: rest => some (.plain word, rest)
    | .quoted text :: rest => some (.string (some text), rest)
    | .itemsOpen :: rest => (takeFlowItems fuel true rest).map (fun r => (.array r.1 .closed, r.2))
    | .fieldsOpen :: rest =>
      (takeFlowFields fuel true rest).map (fun r => (.object r.1 .closed, r.2))
    | .dash :: _ =>
      if underField then (takeItems fuel true tokens).map (fun r => (.array r.1 .closed, r.2))
      else none
    | .sequenceStart :: rest =>
      if block then (takeItems fuel false rest).map (fun r => (.array r.1 .closed, r.2)) else none
    | .mappingStart :: rest =>
      if block then (takeFields fuel rest).map (fun r => (.object r.1 .closed, r.2)) else none
    | _ => none

def takeBlockPart : Nat → Bool → List Token → Option (Draft × List Token)
  | 0, _, _ => none
  | fuel + 1, underField, tokens =>
    match tokens with
    | t :: _ =>
      if endsBlockNode t then some (nothing, tokens) else takeNode fuel true underField tokens
    | [] => none

def takeItems : Nat → Bool → List Token → Option (List Draft × List Token)
  | 0, _, _ => none
  | fuel + 1, underField, tokens =>
    match tokens with
    | .dash :: rest => do
      let (v, rest) ← match rest with
        | .dash :: _ => some (nothing, rest)
        | .blockEnd :: _ => some (nothing, rest)
        | _ => if underField then takeBlockPart fuel false rest else takeNode fuel true false rest
      let (items, rest) ← takeItems fuel underField rest
      some (v :: items, rest)
    | .blockEnd :: rest => some ([], if underField then tokens else rest)
    | _ => if underField then some ([], tokens) else none

def takeFields : Nat → List Token → Option (List (Option String × Draft) × List Token)
  | 0, _ => none
  | fuel + 1, tokens =>
    match tokens with
    | .key :: rest => do
      let (k, rest) ← takeBlockPart fuel true rest
      let (v, rest) ← match rest with
        | .value :: rest => takeBlockPart fuel true rest
        | _ => some (nothing, rest)
      let (fields, rest) ← takeFields fuel rest
      some ((fieldName k, v) :: fields, rest)
    | .blockEnd :: rest => some ([], rest)
    | _ => none

def takeFlowItems : Nat → Bool → List Token → Option (List Draft × List Token)
  | 0, _, _ => none
  | fuel + 1, first, tokens =>
    match first, tokens with
    | _, .itemsClose :: rest => some ([], rest)
    | false, .comma :: .itemsClose :: rest => some ([], rest)
    | true, tokens => takeFlowItem fuel tokens
    | false, .comma :: rest => takeFlowItem fuel rest
    | false, _ => none

def takeFlowItem : Nat → List Token → Option (List Draft × List Token)
  | 0, _ => none
  | fuel + 1, tokens => do
    let (v, rest) ← match tokens with
      | .key :: rest => do
        let (k, rest) ← takeNode fuel false false rest
        let (v, rest) ← takeFlowValue fuel rest
        some (Draft.object [(fieldName k, v)] .closed, rest)
      | _ => takeNode fuel false false tokens
    let (items, rest) ← takeFlowItems fuel false rest
    some (v :: items, rest)

def takeFlowValue : Nat → List Token → Option (Draft × List Token)
  | 0, _ => none
  | fuel + 1, tokens =>
    match tokens with
    | .value :: rest =>
      match rest with
      | .comma :: _ => some (nothing, rest)
      | .itemsClose :: _ => some (nothing, rest)
      | .fieldsClose :: _ => some (nothing, rest)
      | _ => takeNode fuel false false rest
    | _ => some (nothing, tokens)

def takeFlowFields : Nat → Bool → List Token →
    Option (List (Option String × Draft) × List Token)
  | 0, _, _ => none
  | fuel + 1, first, tokens =>
    match first, tokens with
    | _, .fieldsClose :: rest => some ([], rest)
    | false, .comma :: .fieldsClose :: rest => some ([], rest)
    | true, tokens => takeFlowField fuel tokens
    | false, .comma :: rest => takeFlowField fuel rest
    | false, _ => none

def takeFlowField : Nat → List Token → Option (List (Option String × Draft) × List Token)
  | 0, _ => none
  | fuel + 1, tokens => do
    let ((k, v), rest) ← match tokens with
      | .key :: rest => do
        let (k, rest) ← match rest with
          | .value :: _ => some (nothing, rest)
          | .comma :: _ => some (nothing, rest)
          | .fieldsClose :: _ => some (nothing, rest)
          | _ => takeNode fuel false false rest
        let (v, rest) ← takeFlowValue fuel rest
        some ((k, v), rest)
      | _ => (takeNode fuel false false tokens).map (fun r => ((r.1, nothing), r.2))
    let (fields, rest) ← takeFlowFields fuel false rest
    some ((fieldName k, v) :: fields, rest)

end

def ofTokens? (tokens : List Token) : Option Draft :=
  let fuel := 4 * tokens.length + 4
  let single (r : Draft × List Token) : Option Draft :=
    if r.2.all (fun t => t == .documentEnd) then some r.1 else none
  match tokens with
  | [] => some nothing
  | .documentStart :: [] => some nothing
  | .documentStart :: .documentEnd :: rest => single (nothing, rest)
  | .documentStart :: rest => (takeNode fuel true false rest).bind single
  | tokens => (takeNode fuel true false tokens).bind single

def parse? (text : String) : Option Draft := (tokens? text).bind ofTokens?

end ExtensionLock.Yaml
