import ScriptWeave.Script.Token
import ScriptWeave.Text.Path

/-!
Source files that are replaced by bundled ones: the files of a JSON library in its own directory,
which may lie anywhere in the project. The replacements are built on the JSON object of the target
runtime.
-/

namespace ScriptWeave
namespace Project
namespace Bundled

def decoder : String :=
  "\n".intercalate
    ["package com.adobe.serialization.json \x7b",
     "\tpublic class JSONDecoder \x7b",
     "\t\tprivate static const NATIVE = Function(\"return this\")().JSON;",
     "",
     "\t\tprivate var value:*;",
     "",
     "\t\tpublic function JSONDecoder(s:String, strict:Boolean = true) \x7b",
     "\t\t\tif (!strict) \x7b",
     "\t\t\t\ts = s.replace(new RegExp(\"\\\\bNaN\\\\b\", \"g\"), \"null\");",
     "\t\t\t\x7d",
     "\t\t\ttry \x7b",
     "\t\t\t\tvalue = NATIVE.parse(s);",
     "\t\t\t\x7d catch (e) \x7b",
     "\t\t\t\tthrow new JSONParseError(e.message, 0, s);",
     "\t\t\t\x7d",
     "\t\t\x7d",
     "",
     "\t\tpublic function getValue():* \x7b",
     "\t\t\treturn value;",
     "\t\t\x7d",
     "\t\x7d",
     "\x7d",
     ""]

def encoder : String :=
  "\n".intercalate
    ["package com.adobe.serialization.json \x7b",
     "\tpublic class JSONEncoder \x7b",
     "\t\tprivate static const NATIVE = Function(\"return this\")().JSON;",
     "",
     "\t\tprivate var jsonString:String;",
     "",
     "\t\tpublic function JSONEncoder(value:*) \x7b",
     "\t\t\tjsonString = NATIVE.stringify(value);",
     "\t\t\x7d",
     "",
     "\t\tpublic function getString():String \x7b",
     "\t\t\treturn jsonString;",
     "\t\t\x7d",
     "\t\x7d",
     "\x7d",
     ""]

def parseError : String :=
  "\n".intercalate
    ["package com.adobe.serialization.json \x7b",
     "\tpublic class JSONParseError extends Error \x7b",
     "\t\tprivate var _location:int;",
     "\t\tprivate var _text:String;",
     "",
     "\t\tpublic function JSONParseError(message:String = \"\", location:int = 0, text:String = \"\") \x7b",
     "\t\t\tsuper(message);",
     "\t\t\tthis.message = message;",
     "\t\t\tthis.name = \"JSONParseError\";",
     "\t\t\t_location = location;",
     "\t\t\t_text = text;",
     "\t\t\x7d",
     "",
     "\t\tpublic function getLocation():int \x7b",
     "\t\t\treturn _location;",
     "\t\t\x7d",
     "",
     "\t\tpublic function getText():String \x7b",
     "\t\t\treturn _text;",
     "\t\t\x7d",
     "\t\x7d",
     "\x7d",
     ""]

def token : String :=
  "\n".intercalate
    ["package com.adobe.serialization.json \x7b",
     "\tpublic class JSONToken \x7b",
     "\t\tpublic var type:int;",
     "\t\tpublic var value:Object;",
     "",
     "\t\tpublic function JSONToken(type:int = -1, value:Object = null) \x7b",
     "\t\t\tthis.type = type;",
     "\t\t\tthis.value = value;",
     "\t\t\x7d",
     "\t\x7d",
     "\x7d",
     ""]

def tokenType : String :=
  "\n".intercalate
    ["package com.adobe.serialization.json \x7b",
     "\tpublic class JSONTokenType \x7b",
     "\t\tpublic static const UNKNOWN:int = -1;",
     "\t\tpublic static const COMMA:int = 0;",
     "\t\tpublic static const LEFT_BRACE:int = 1;",
     "\t\tpublic static const RIGHT_BRACE:int = 2;",
     "\t\tpublic static const LEFT_BRACKET:int = 3;",
     "\t\tpublic static const RIGHT_BRACKET:int = 4;",
     "\t\tpublic static const COLON:int = 6;",
     "\t\tpublic static const TRUE:int = 7;",
     "\t\tpublic static const FALSE:int = 8;",
     "\t\tpublic static const NULL:int = 9;",
     "\t\tpublic static const STRING:int = 10;",
     "\t\tpublic static const NUMBER:int = 11;",
     "\t\tpublic static const NAN:int = 12;",
     "\t\x7d",
     "\x7d",
     ""]

def tokenizer : String :=
  "\n".intercalate
    ["package com.adobe.serialization.json \x7b",
     "\tpublic class JSONTokenizer \x7b",
     "\t\tprivate static const NATIVE = Function(\"return this\")().JSON;",
     "\t\tprivate static const PUNCTUATION = \x7b \",\": 0, \"\x7b\": 1, \"\x7d\": 2, \"[\": 3, \"]\": 4, \":\": 6 \x7d;",
     "\t\tprivate static const LITERALS = \x7b \"true\": [7, true], \"false\": [8, false], \"null\": [9, null], \"NaN\": [12, NaN] \x7d;",
     "",
     "\t\tprivate var jsonString:String;",
     "\t\tprivate var loc:int;",
     "\t\tprivate var strict:Boolean;",
     "",
     "\t\tpublic function JSONTokenizer(s:String, strict:Boolean) \x7b",
     "\t\t\tjsonString = s;",
     "\t\t\tthis.strict = strict;",
     "\t\t\x7d",
     "",
     "\t\tpublic function getNextToken():JSONToken \x7b",
     "\t\t\tskipWhite();",
     "\t\t\tif (loc >= jsonString.length) \x7b",
     "\t\t\t\treturn null;",
     "\t\t\t\x7d",
     "",
     "\t\t\tvar ch:String = jsonString.charAt(loc);",
     "\t\t\tif (PUNCTUATION.hasOwnProperty(ch)) \x7b",
     "\t\t\t\tloc++;",
     "\t\t\t\treturn new JSONToken(PUNCTUATION[ch], ch);",
     "\t\t\t\x7d",
     "\t\t\tif (ch == \"\\\"\") \x7b",
     "\t\t\t\treturn readString();",
     "\t\t\t\x7d",
     "\t\t\tif (ch == \"-\" || (ch >= \"0\" && ch <= \"9\")) \x7b",
     "\t\t\t\treturn readNumber();",
     "\t\t\t\x7d",
     "",
     "\t\t\tvar words = Object.keys(LITERALS);",
     "\t\t\tfor (var i:int = 0; i < words.length; i++) \x7b",
     "\t\t\t\tvar word:String = words[i];",
     "\t\t\t\tif (jsonString.substr(loc, word.length) != word) \x7b",
     "\t\t\t\t\tcontinue;",
     "\t\t\t\t\x7d",
     "\t\t\t\tif (word == \"NaN\" && strict) \x7b",
     "\t\t\t\t\tbreak;",
     "\t\t\t\t\x7d",
     "\t\t\t\tloc += word.length;",
     "\t\t\t\treturn new JSONToken(LITERALS[word][0], LITERALS[word][1]);",
     "\t\t\t\x7d",
     "",
     "\t\t\tparseError(\"Unexpected \" + ch + \" encountered\");",
     "\t\t\treturn null;",
     "\t\t\x7d",
     "",
     "\t\tprivate function readString():JSONToken \x7b",
     "\t\t\tvar end:int = loc + 1;",
     "\t\t\twhile (end < jsonString.length && jsonString.charAt(end) != \"\\\"\") \x7b",
     "\t\t\t\tif (jsonString.charAt(end) == \"\\\\\") \x7b",
     "\t\t\t\t\tend++;",
     "\t\t\t\t\x7d",
     "\t\t\t\tend++;",
     "\t\t\t\x7d",
     "\t\t\tif (end >= jsonString.length) \x7b",
     "\t\t\t\tparseError(\"Unterminated string literal\");",
     "\t\t\t\x7d",
     "",
     "\t\t\tvar text:String = jsonString.substring(loc, end + 1);",
     "\t\t\tloc = end + 1;",
     "\t\t\treturn new JSONToken(JSONTokenType.STRING, NATIVE.parse(text));",
     "\t\t\x7d",
     "",
     "\t\tprivate function readNumber():JSONToken \x7b",
     "\t\t\tvar end:int = loc + 1;",
     "\t\t\twhile (end < jsonString.length && \"0123456789.eE+-\".indexOf(jsonString.charAt(end)) != -1) \x7b",
     "\t\t\t\tend++;",
     "\t\t\t\x7d",
     "",
     "\t\t\tvar text:String = jsonString.substring(loc, end);",
     "\t\t\tvar num:Number = Number(text);",
     "\t\t\tif (text == \"-\" || isNaN(num)) \x7b",
     "\t\t\t\tparseError(\"Invalid number \" + text);",
     "\t\t\t\x7d",
     "\t\t\tloc = end;",
     "\t\t\treturn new JSONToken(JSONTokenType.NUMBER, num);",
     "\t\t\x7d",
     "",
     "\t\tprivate function skipWhite():void \x7b",
     "\t\t\twhile (loc < jsonString.length && \" \\t\\r\\n\".indexOf(jsonString.charAt(loc)) != -1) \x7b",
     "\t\t\t\tloc++;",
     "\t\t\t\x7d",
     "\t\t\x7d",
     "",
     "\t\tpublic function parseError(message:String):void \x7b",
     "\t\t\tthrow new JSONParseError(message, loc, jsonString);",
     "\t\t\x7d",
     "\t\x7d",
     "\x7d",
     ""]

/-- The replacements by name, in the order of the names. -/
def all : List (String × String) :=
  [("JSONDecoder", decoder),
   ("JSONEncoder", encoder),
   ("JSONParseError", parseError),
   ("JSONToken", token),
   ("JSONTokenType", tokenType),
   ("JSONTokenizer", tokenizer)]

/-- The names of the replacements. -/
def names : List String := all.map (·.1)

/-- The text of a replacement. -/
def text? (name : String) : Option String := all.lookup name

end Bundled

/-- The directory of the replaced library. -/
def replacedDirectory : String := "com/adobe/serialization/json/"

/-- Whether a path ends in the given tail, and the tail begins a word there. -/
def endsInWord (tail path : String) : Bool :=
  Text.endsIn tail path &&
    match (path.toList.take (path.toList.length - tail.toList.length)).getLast? with
    | none => true
    | some c => !Script.Lexeme.isWordChar c

/-- The name of the replacement of a source path. -/
def substitution? (path : String) : Option String :=
  Bundled.names.find? fun name => endsInWord (replacedDirectory ++ name ++ ".as") path

/-- Where a replacement of a name is kept. -/
def bundledPath (name : String) : String := Text.Path.join ["substitutes", name ++ ".as"]

/-- The text of a replacement, or the message that there is none. -/
def bundled (name : String) : Except String String :=
  match Bundled.all.find? fun entry => bundledPath entry.1 = bundledPath name with
  | some (_, text) => .ok text
  | none => .error ("open " ++ bundledPath name ++ ": file does not exist")

end Project
end ScriptWeave
