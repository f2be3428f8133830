/-!
# Token kinds

Every kind of token, the spelling of those that have only one, and the classes of kinds that the
grammar asks for. The order of the constructors is the order of the classes: trivia, literals,
punctuation, assignments, names, reserved words, contextual keywords.
-/

namespace Unchain.Token

/-- What a token is. -/
inductive Kind where
  -- Tokens that are not in the language, and the end
  | unknown | endOfFile
  -- Trivia
  | lineComment | blockComment | newLine | whiteSpace
  -- Literals
  | number | bigInt | string | regex | template | templateHead | templateMiddle | templateTail
  -- Punctuation
  | openBrace | closeBrace | openParen | closeParen | openBracket | closeBracket | dot | ellipsis
  | semicolon | comma | questionDot | lessThan | greaterThan | lessEquals | greaterEquals
  | equalsEquals | notEquals | strictEquals | strictNotEquals | arrow | plus | minus | asterisk
  | power | slash | percent | plusPlus | minusMinus | shiftLeft | shiftRight | shiftRightUnsigned
  | ampersand | bar | caret | exclamation | tilde | andAnd | orOr | question | colon | atSign
  | questionQuestion
  -- Assignments
  | equals | plusEquals | minusEquals | asteriskEquals | powerEquals | slashEquals
  | percentEquals | shiftLeftEquals | shiftRightEquals | shiftRightUnsignedEquals
  | ampersandEquals | barEquals | caretEquals | orOrEquals | andAndEquals
  | questionQuestionEquals
  -- Names
  | identifier | privateIdentifier
  -- Reserved words
  | breakKeyword | caseKeyword | catchKeyword | classKeyword | constKeyword | continueKeyword
  | debuggerKeyword | defaultKeyword | deleteKeyword | doKeyword | elseKeyword | enumKeyword
  | exportKeyword | extendsKeyword | falseKeyword | finallyKeyword | forKeyword | functionKeyword
  | ifKeyword | importKeyword | inKeyword | instanceofKeyword | newKeyword | nullKeyword
  | returnKeyword | superKeyword | switchKeyword | thisKeyword | throwKeyword | trueKeyword
  | tryKeyword | typeofKeyword | varKeyword | voidKeyword | whileKeyword | withKeyword
  -- Contextual keywords
  | abstractKeyword | asKeyword | asyncKeyword | awaitKeyword | constructorKeyword
  | declareKeyword | fromKeyword | getKeyword | implementsKeyword | interfaceKeyword
  | keyofKeyword | letKeyword | moduleKeyword | namespaceKeyword | ofKeyword | overrideKeyword
  | privateKeyword | protectedKeyword | publicKeyword | readonlyKeyword | satisfiesKeyword
  | setKeyword | staticKeyword | typeKeyword | yieldKeyword
  deriving DecidableEq, Repr, Inhabited

namespace Kind

/-- Line breaks, white space and comments. -/
def trivia : List Kind := [
  .lineComment, .blockComment, .newLine, .whiteSpace]

/-- Literals, up to the template without substitutions. -/
def literals : List Kind := [
  .number, .bigInt, .string, .regex, .template]

/-- The parts of a template with substitutions. -/
def templateParts : List Kind := [
  .templateHead, .templateMiddle, .templateTail]

/-- Punctuation and operators that assign nothing. -/
def punctuation : List Kind := [
  .openBrace, .closeBrace, .openParen, .closeParen, .openBracket, .closeBracket, .dot, .ellipsis,
  .semicolon, .comma, .questionDot, .lessThan, .greaterThan, .lessEquals, .greaterEquals,
  .equalsEquals, .notEquals, .strictEquals, .strictNotEquals, .arrow, .plus, .minus, .asterisk,
  .power, .slash, .percent, .plusPlus, .minusMinus, .shiftLeft, .shiftRight, .shiftRightUnsigned,
  .ampersand, .bar, .caret, .exclamation, .tilde, .andAnd, .orOr, .question, .colon, .atSign,
  .questionQuestion]

/-- Assignment operators. -/
def assignments : List Kind := [
  .equals, .plusEquals, .minusEquals, .asteriskEquals, .powerEquals, .slashEquals,
  .percentEquals, .shiftLeftEquals, .shiftRightEquals, .shiftRightUnsignedEquals,
  .ampersandEquals, .barEquals, .caretEquals, .orOrEquals, .andAndEquals, .questionQuestionEquals]

/-- Words that are never names. -/
def reservedWords : List Kind := [
  .breakKeyword, .caseKeyword, .catchKeyword, .classKeyword, .constKeyword, .continueKeyword,
  .debuggerKeyword, .defaultKeyword, .deleteKeyword, .doKeyword, .elseKeyword, .enumKeyword,
  .exportKeyword, .extendsKeyword, .falseKeyword, .finallyKeyword, .forKeyword, .functionKeyword,
  .ifKeyword, .importKeyword, .inKeyword, .instanceofKeyword, .newKeyword, .nullKeyword,
  .returnKeyword, .superKeyword, .switchKeyword, .thisKeyword, .throwKeyword, .trueKeyword,
  .tryKeyword, .typeofKeyword, .varKeyword, .voidKeyword, .whileKeyword, .withKeyword]

/-- Words that are keywords in some places and names in others. -/
def contextualKeywords : List Kind := [
  .abstractKeyword, .asKeyword, .asyncKeyword, .awaitKeyword, .constructorKeyword,
  .declareKeyword, .fromKeyword, .getKeyword, .implementsKeyword, .interfaceKeyword,
  .keyofKeyword, .letKeyword, .moduleKeyword, .namespaceKeyword, .ofKeyword, .overrideKeyword,
  .privateKeyword, .protectedKeyword, .publicKeyword, .readonlyKeyword, .satisfiesKeyword,
  .setKeyword, .staticKeyword, .typeKeyword, .yieldKeyword]

/-- Every kind, in order. -/
def all : List Kind :=
  [.unknown, .endOfFile] ++ trivia ++ literals ++ templateParts ++ punctuation ++ assignments ++
    [.identifier, .privateIdentifier] ++ reservedWords ++ contextualKeywords

/-- The kind with a number in that order. -/
def ofIndex? (index : Nat) : Option Kind := all[index]?

/-- The text of a token whose kind fixes it: punctuation and keywords. -/
def spelling? : Kind → Option String
  | openBrace => some "\x7b"
  | closeBrace => some "\x7d"
  | openParen => some "("
  | closeParen => some ")"
  | openBracket => some "["
  | closeBracket => some "]"
  | dot => some "."
  | ellipsis => some "..."
  | semicolon => some ";"
  | comma => some ","
  | questionDot => some "?."
  | lessThan => some "<"
  | greaterThan => some ">"
  | lessEquals => some "<="
  | greaterEquals => some ">="
  | equalsEquals => some "=="
  | notEquals => some "!="
  | strictEquals => some "==="
  | strictNotEquals => some "!=="
  | arrow => some "=>"
  | plus => some "+"
  | minus => some "-"
  | asterisk => some "*"
  | power => some "**"
  | slash => some "/"
  | percent => some "%"
  | plusPlus => some "++"
  | minusMinus => some "--"
  | shiftLeft => some "<<"
  | shiftRight => some ">>"
  | shiftRightUnsigned => some ">>>"
  | ampersand => some "&"
  | bar => some "|"
  | caret => some "^"
  | exclamation => some "!"
  | tilde => some "~"
  | andAnd => some "&&"
  | orOr => some "||"
  | question => some "?"
  | colon => some ":"
  | atSign => some "@"
  | questionQuestion => some "??"
  | equals => some "="
  | plusEquals => some "+="
  | minusEquals => some "-="
  | asteriskEquals => some "*="
  | powerEquals => some "**="
  | slashEquals => some "/="
  | percentEquals => some "%="
  | shiftLeftEquals => some "<<="
  | shiftRightEquals => some ">>="
  | shiftRightUnsignedEquals => some ">>>="
  | ampersandEquals => some "&="
  | barEquals => some "|="
  | caretEquals => some "^="
  | orOrEquals => some "||="
  | andAndEquals => some "&&="
  | questionQuestionEquals => some "??="
  | breakKeyword => some "break"
  | caseKeyword => some "case"
  | catchKeyword => some "catch"
  | classKeyword => some "class"
  | constKeyword => some "const"
  | continueKeyword => some "continue"
  | debuggerKeyword => some "debugger"
  | defaultKeyword => some "default"
  | deleteKeyword => some "delete"
  | doKeyword => some "do"
  | elseKeyword => some "else"
  | enumKeyword => some "enum"
  | exportKeyword => some "export"
  | extendsKeyword => some "extends"
  | falseKeyword => some "false"
  | finallyKeyword => some "finally"
  | forKeyword => some "for"
  | functionKeyword => some "function"
  | ifKeyword => some "if"
  | importKeyword => some "import"
  | inKeyword => some "in"
  | instanceofKeyword => some "instanceof"
  | newKeyword => some "new"
  | nullKeyword => some "null"
  | returnKeyword => some "return"
  | superKeyword => some "super"
  | switchKeyword => some "switch"
  | thisKeyword => some "this"
  | throwKeyword => some "throw"
  | trueKeyword => some "true"
  | tryKeyword => some "try"
  | typeofKeyword => some "typeof"
  | varKeyword => some "var"
  | voidKeyword => some "void"
  | whileKeyword => some "while"
  | withKeyword => some "with"
  | abstractKeyword => some "abstract"
  | asKeyword => some "as"
  | asyncKeyword => some "async"
  | awaitKeyword => some "await"
  | constructorKeyword => some "constructor"
  | declareKeyword => some "declare"
  | fromKeyword => some "from"
  | getKeyword => some "get"
  | implementsKeyword => some "implements"
  | interfaceKeyword => some "interface"
  | keyofKeyword => some "keyof"
  | letKeyword => some "let"
  | moduleKeyword => some "module"
  | namespaceKeyword => some "namespace"
  | ofKeyword => some "of"
  | overrideKeyword => some "override"
  | privateKeyword => some "private"
  | protectedKeyword => some "protected"
  | publicKeyword => some "public"
  | readonlyKeyword => some "readonly"
  | satisfiesKeyword => some "satisfies"
  | setKeyword => some "set"
  | staticKeyword => some "static"
  | typeKeyword => some "type"
  | yieldKeyword => some "yield"
  | _ => none

/-- The text of a token whose kind fixes it, as characters. -/
def spelling (kind : Kind) : List Char := (kind.spelling?.getD "").toList

/-- A word of the language that may not be a name. -/
def isReservedWord (kind : Kind) : Bool := reservedWords.contains kind

/-- A word of the language that may be a name in some places. -/
def isContextualKeyword (kind : Kind) : Bool := contextualKeywords.contains kind

/-- A word of the language. -/
def isKeyword (kind : Kind) : Bool := kind.isReservedWord || kind.isContextualKeyword

/-- An identifier, or a word that may be one. -/
def isIdentifierLike (kind : Kind) : Bool := kind == .identifier || kind.isContextualKeyword

/-- An operator that writes to its left side. -/
def isAssignment (kind : Kind) : Bool := assignments.contains kind

/-- A token that stands for a value by itself. -/
def isLiteral (kind : Kind) : Bool := literals.contains kind

/-- A token that the grammar does not see. -/
def isTrivia (kind : Kind) : Bool := trivia.contains kind

/-- The words of the language and their kinds. -/
def words : List (String × Kind) := [
  ("break", .breakKeyword), ("case", .caseKeyword), ("catch", .catchKeyword),
  ("class", .classKeyword), ("const", .constKeyword), ("continue", .continueKeyword),
  ("debugger", .debuggerKeyword), ("default", .defaultKeyword), ("delete", .deleteKeyword),
  ("do", .doKeyword), ("else", .elseKeyword), ("enum", .enumKeyword), ("export", .exportKeyword),
  ("extends", .extendsKeyword), ("false", .falseKeyword), ("finally", .finallyKeyword),
  ("for", .forKeyword), ("function", .functionKeyword), ("if", .ifKeyword),
  ("import", .importKeyword), ("in", .inKeyword), ("instanceof", .instanceofKeyword),
  ("new", .newKeyword), ("null", .nullKeyword), ("return", .returnKeyword),
  ("super", .superKeyword), ("switch", .switchKeyword), ("this", .thisKeyword),
  ("throw", .throwKeyword), ("true", .trueKeyword), ("try", .tryKeyword),
  ("typeof", .typeofKeyword), ("var", .varKeyword), ("void", .voidKeyword),
  ("while", .whileKeyword), ("with", .withKeyword), ("abstract", .abstractKeyword),
  ("as", .asKeyword), ("async", .asyncKeyword), ("await", .awaitKeyword),
  ("constructor", .constructorKeyword), ("declare", .declareKeyword), ("from", .fromKeyword),
  ("get", .getKeyword), ("implements", .implementsKeyword), ("interface", .interfaceKeyword),
  ("keyof", .keyofKeyword), ("let", .letKeyword), ("module", .moduleKeyword),
  ("namespace", .namespaceKeyword), ("of", .ofKeyword), ("override", .overrideKeyword),
  ("private", .privateKeyword), ("protected", .protectedKeyword), ("public", .publicKeyword),
  ("readonly", .readonlyKeyword), ("satisfies", .satisfiesKeyword), ("set", .setKeyword),
  ("static", .staticKeyword), ("type", .typeKeyword), ("yield", .yieldKeyword)]

/-- The keyword that is written so. -/
def keyword? (text : String) : Option Kind := words.lookup text

/-- The kind of token that is always written so. -/
def ofSpelling? (text : String) : Option Kind :=
  all.find? fun kind => kind.spelling? == some text

end Kind

end Unchain.Token
