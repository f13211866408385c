import AttrGrammar.Text.Unicode.Table

/-! The general categories of characters. -/

namespace AttrGrammar.Text.Unicode

/-- The names of the categories and of their unions, each with the numbers of its categories. -/
def categoryNames : List (List String × List Nat) := [
  (["lu", "uppercaseletter"], [0]), (["ll", "lowercaseletter"], [1]),
  (["lt", "titlecaseletter"], [2]), (["lm", "modifierletter"], [3]), (["lo", "otherletter"], [4]),
  (["mn", "nonspacingmark"], [5]), (["mc", "spacingmark"], [6]), (["me", "enclosingmark"], [7]),
  (["nd", "decimalnumber", "digit"], [8]), (["nl", "letternumber"], [9]),
  (["no", "othernumber"], [10]), (["pc", "connectorpunctuation"], [11]),
  (["pd", "dashpunctuation"], [12]), (["ps", "openpunctuation"], [13]),
  (["pe", "closepunctuation"], [14]), (["pi", "initialpunctuation"], [15]),
  (["pf", "finalpunctuation"], [16]), (["po", "otherpunctuation"], [17]),
  (["sm", "mathsymbol"], [18]), (["sc", "currencysymbol"], [19]), (["sk", "modifiersymbol"], [20]),
  (["so", "othersymbol"], [21]), (["zs", "spaceseparator"], [22]), (["zl", "lineseparator"], [23]),
  (["zp", "paragraphseparator"], [24]), (["cc", "control", "cntrl"], [25]),
  (["cf", "format"], [26]), (["co", "privateuse"], [27]), (["cn", "unassigned"], [28]),
  (["l", "letter"], [0, 1, 2, 3, 4]), (["lc", "casedletter"], [0, 1, 2]),
  (["m", "mark", "combiningmark"], [5, 6, 7]), (["n", "number"], [8, 9, 10]),
  (["p", "punctuation", "punct"], [11, 12, 13, 14, 15, 16, 17]),
  (["s", "symbol"], [18, 19, 20, 21]), (["z", "separator"], [22, 23, 24]),
  (["c", "other"], [25, 26, 27, 28])]

/-- The categories of all characters in order. -/
def categories : Runs := runsOf [
  "X0P1M3H1J3H1D1E1H1I1H1C2HA82H3I2HQ01D1H1E1K1B1KQ11D1I1E1IX1P1M1H4J1L1H1K1L141F1I1Q1L1K1L1I2A",
  "1K112H1K1A141G3A1HN01I70O11I8110111011101110111011101110111011101110111011101110111011101110",
  "11101110111011101110111011101110111011101110111021101110111011101110111011101110211011101110",
  "11101110111011101110111011101110111011101110111011101110111011101110111011101110112011101110",
  "31201110112011302140112011303120112011101110112011102110112011301110112021141031441012111012",
  "11101211101110111011101110111011101110211011101110111011101110111011101110211012111011301110",
  "11101110111011101110111011101110111011101110111011101110111011101110111011101110111011101110",
  "1110111011101110111071201120211011401110111011101110Y5124Q1I34KC3EK537K131K13HKZG51011101113",
  "1K10112S13311H104S2K101H301S101S2011H01S90X3110213031101110111011101110111011101110111011101",
  "11011105110111I10112021XJ0XG1101110111011101110111011101110111011101110111011101110111011101",
  "110111L5527101110111011101110111011101110111011101110111011101110111011101110111011101110111",
  "01110111011101110111011101120111011101110111011101110211011101110111011101110111011101110111",
  "01110111011101110111011101110111011101110111011101110111011101110111011101110111011101110111",
  "0111011101110111011101110111011101110111011101110111011101110111SX602S136HX911H1C2S2L1J1SXD5",
  "1C151H251H251H158SR44S442HBS6Q3I2H1J2H2LB51H1Q3HX0413A4L5A84H2415Z341H14751Q1L6523251L4524A8",
  "342L14EH1S1Q1415U4R52SYP4B514ESA8X1495231L3H132S152JM4451395133513552SFH1SP4352S1H1SB45SO41K",
  "641S2Q5S95X9413O51QX0516XM41516151436854615261475A4252HA81H13F415261S842S242SM41S741S143S442",
  "S151436452S262S2615148S164S241S34252SA8242J6A1L1J141H152S25161S644S242SM41S741S241S241S242S1",
  "51S36254S252S353S157S441S147SA82534151HAS25161S941S341SM41S741S241S542S151436551S25161S26152",
  "S14FS24252SA81H1J7S14651S15261S842S242SM41S741S241S542S1514161516452S262S26157S25164S241S342",
  "52SA81L146AAS15141S643S341S443S241S141S243S243S343SC44S2615263S361S36152S146S16ESA83A6L1J1L5",
  "S153615841S341SN41SG42S151435461S351S457S251S342S142S24252SA87S1H7A1L1415261H841S341SN41SA41",
  "S542S15141615561S15261S26257S266S241S24252SA81S2416CS2526941S341SX94251436451S361S3615141L4S",
  "34167A34252SA89A1L641S15261SI43SO41S941S142S743S154S36351S151S866SA82S261HCSXG41524754S1J641",
  "3851HA82HX5S241S141S541SO41S141SA4152495142S541S131S751SA82S44X0S143LFH1L1H3L256LA8AA1L151L1",
  "51L151D1E1D1E26841SX444SE516551H2554B51SX451S8L156L1S2L5H4L2HX5SXB4264516651625262514A86H642",
  "6254435143624763445D415262566151416A836152LX601S105S102SXB11H1331g941S442S741S141S442SX941S4",
  "42SX141S442S741S141S442SF41SXP41S442SY342S359HKA3SG4AL6SYM02S612S1CpC41L1HH41MQ41D1E3SYB43H3",
  "9847SI435169SJ425162H9SI425CSD41S341S25CSXK4251675861526B53H133H1J14152SA86SAA6S6H1C4H351Q15",
  "A86SX3413XL47S5425X2415145SY64ASV41S354625364S261566354S1L3S2HA8U42S54BSXC44SQ46SA81A3SX2LN4",
  "2526152S2HXL4161516751S151615268566A52S15A86SA86S7H136H2SE517G5XHS4516XF41516551615561526841",
  "S2HA87HAL959L3H2516U416452625163524A8XC415162536151635268S4HX44868526253S5HA83S34A8U4632H911",
  "0115SXB02S308H8S351HD5167544156415241625145SXC1XV3D113X21X53Y0510111011101110111011101110111",
  "01110111011101110111011101110111011101110111011101110111011101110111011101110111011101110111",
  "01110111011101110111011101110111011101110111011101110111011101110111011101110111011101110111",
  "01110111011101110111011101110111011101110111011101110111011101110111011101110111011109110111",
  "01110111011101110111011101110111011101110111011101110111011101110111011101110111011101110111",
  "01110111011101110111011101110111011101110111011101110111011101110111011101110111011101110111",
  "011109180612S602S81808180612S602S811S101S101S101S108180E12S818281828182511S2140121K113K311S2",
  "140123K412S21401S3K81503K2S311S2140122K1SBM5Q6C2H1F1G1D2F1G1D1F8H1N1O5Q1M9H1F1G4H2B3H1I1D1EB",
  "H1I1H1BAH1M5Q1SAQ1A132S6A3I1D1E13AA3I1D1E1SD33SX1JFSD5471537C5FS2L104L102L11302130111L102L1I",
  "506L101L101L101L401L11401144112L21205I10411L1I2L111LGAX391011491A2L4S5I5L2I4L1I2L1I2L1I7L1IV",
  "L2I2L1I1L1IVLeCI8L1D1E1D1EKL2I7L1D1EYHL1IULPIX8L6IY8LMSBLLSXSAYELMAbNL1I9L1IXML8IZFL1IdOL1D1",
  "E1D1E1D1E1D1E1D1E1D1E1D1EUAXCL5I1D1EVI1D1E1D1E1D1E1D1E1D1EGIe0La3I1D1E1D1E1D1E1D1E1D1E1D1E1D",
  "1E1D1E1D1E1D1E1D1EXVI1D1E1D1EX0I1D1Ee2IXGLLI2L6IX7L2SX0L1SZ9LXG0XG11011302110111011101140111",
  "02110612330111011101110111011101110111011101110111011101110111011101110111011101110111011101",
  "11011101110111011101110111011101110111011101110111011101110111011101110111011101110111011101",
  "11011101110111011101110216L101110113510115S4H1A2HX611S115S112SXO47S131HES15N49S741S741S741S7",
  "41S741S741S741S741SX052H1F1G1F1G3H1F1G1H1F1G9H1C2H1C1H1F1G2H1F1G1D1E1D1E1D1E1D1E5H13AH2C4H1C",
  "1H1DDH2L3H1D1E1D1E1D1E1D1E1CX2SQL1SYPLCScMLQSGL1M3H1L1314191D1E1D1E1D1E1D1E1D1E2L1D1E1D1E1D1",
  "E1D1E1C1D2E1L9945261C532L3913141H2L1SYM42S252K23141CYQ41H33145SXB41SYU41S2L4AALX04X6L9S1LG4V",
  "L1SAAUL8A1LFAX0LAAX7LFAg0Lck04Y0LqmL413XZN43SXNL9SX84632HeC4133HG4A824KS10111011101110111011",
  "1011101110111011101110111011101110111011101110111011101110111011101110111415371HA51H13101110",
  "111011101110111011101110111011101110111011101110112325Y64A9256H8SNK932K101110111011101110111",
  "01110311011101110111011101110111011101110111011101110111011101110111011101110111011101110111",
  "01110111011101110111011101110111011101113811011101120111011101110111011132K10111011141011103",
  "110111011101110111011101110111011101110115011501110111011101110111011101110114011101120112S1",
  "0111S111S1110111011101110LS331011142311741534154415N42625164L153S6A2L1J1L6SXK44H8S26XI4G6258",
  "S2HA86SI5643H141H2415A8S4852HN4B526BS1HT43S3516XF4152645262536DH1S13A84S2H54151394A8541SX946",
  "5262526259S34158415162SA82S4HG413643L14161516XI415143524255425141514OS24132HB41625262H142316",
  "15AS642S642S649S741S741SXB11K4391132K4SYG1X3426152615261H16152SA86Sgz44CSN44SXH44Sce0RhE42SZ",
  "A4X6S71CS515S1415A41ID41S541S141S241S241SZC4HKGShB41E1DGLY042SXM47S1LX0SC41J3LG57H1D1E1H6SG5",
  "1H2C2B1D1E1D1E1D1E1D1E1D1E1D1E1D1E1D1E2H1D1E4H3B3H1S4H1C1D1E1D1E1D1E3H1I1C3I1S1H1J2H4S541Sa7",
  "42S1Q1S3H1J3H1D1E1H1I1H1C2HA82H3I2HQ01D1H1E1K1B1KQ11D1I1E1I1D1E1H1D1E2HA413XD423V43S642S642S",
  "642S343S2J1I1K1L2J1S1L4I2LAS3Q2L2SC41SQ41SJ41S241SF42SE4X2SZR45S3H4SXDA3S9LXL94AHL2A3L1SDL3S",
  "1LXFSXDL15a2ST43SXH4FS15RA4SX044A9SK41984195SX64555SU41S1HX444S841H59XASX80X81YE42SA86SX404S",
  "X414SX848SXK4BS1HB01SF01S701S201SB11SF11S711S213SXK4CSfN49SM4AS84OS631SXA31S93Y5S642S141SXC4",
  "1S243S142SN41S1H8AN42L7AV48S9AXGSJ41S245S5AM46A3S1HQ45S1HY0SXO44S2A24GA2SXEA14351S255S45441S",
  "341ST42S354S159A7S9H7ST42A1HT43AX0S841LS4254S5A7H9SXM43S7HM42S8AJ45S8AI47S4HCS7AYGSY94XNSXJ0",
  "DSXJ17S6AX44458SA86SA8441314M03S551C13M18S2IcGSVA1SXA41S251C2S24GS34XNS45T4AA148SM4B54A5HMSI",
  "4454HX6SL47AKSN49S161516XL4F57H4SKAA8152425149S3516XD4364526252H1Q4H15AS1Q2SP47SA86S35X44551",
  "6851SA84H1426148SX34152H149S2516XG4369526444H451H1615A8141H143H1SKABSI41SP43635261516256H152",
  "415XUS741S141S441SF41SA41H6SXF41536855SA86S25261S842S242SM41S741S241S541S25142615462S262S362",
  "S146S165S54262S753S55BSA41S142S141SX641S1436651S162S161S461S261516151415142H1S2H8S25TSXL4368",
  "526351615445HA82H1S1H1534USXG43665161546251625241H148SA8b6SXF436452S46251625NH4425X2SXG43685",
  "261516253H14BSA86SDHJSXB415161526651615141H6SA86SK8SSR42S151615264516554SA82A3H1L74bPSXC4369",
  "516251HZ4SX00X01A89ACS842S142S841S241SO4661S262S25161514161416153H9SA8Y6S842SX7436452S254615",
  "141H1416RS14A5X84651614458H158S14652635XE4D516253H145HDSY947SAHbMSX141HESA86S941SX5416751S65",
  "1615145HASA8JA3S2HU42SM51S167516251625Y9S741S241SX64653S151S251S7514158SA86S641S241SX04561S2",
  "51S26151615147SA8fMSJ425262H7S251416D41SX2426553S26151615DHA815YLS14FSLA8L4JHLDS1HyQ4Z6SZF91",
  "S5HBSc44YoCSZ142HDSXXG4GQ1564F5ASZyR45So74crPSU4C53635A8Xs6SnP47SV41SA84S2HYF41SA86SU42S551H",
  "ASXG4755H4L431H1LASA81S7A1SL45SJ4jGS33X84233HA8c6SX00X01NA4HZ5SYB44S1514XN67S45D3Y0S231H1315",
  "BS26ESb-O48SXcM4X9SA4et7S431S731S231Sf34FS14TS342S14ES448SiC4Ye4SZB45SD43S947SA42S1L251H4QZw",
  "SSdGLA86SjKLYCSXE52SN59SZKLXSSdMLASX7L2SXSL26353L668Q852L75UL45XTLLSY2L351LZQSKACSKACSYNL9SP",
  "Aa7SQ0Q1Q0711SI1Q0Q1101S202S102S202S401S80411S111S711SB1Q0Q1201S402S801S701SQ1201S401S501S10",
  "3S701SQ1Q0Q1Q0Q1Q0Q1Q0Q1Q0Q1Q0S12SP01IP11I61P01IP11I61P01IP11I61P01IP11I61P01IP11I6110112SXI",
  "8m0LXN54LXI58L15EL152L5HFS551SF5XYGSA114K16S61cLS751SH52S751S251S555SXU3X1S15ZGSXD43S75732SA",
  "84S141Lg0SU415HSXC445A85S1JkGSR41345A8cMSU42514A84S1Hl0S741S441S241SF41Sc542S9A75X9SX20X2175",
  "134SA84S2HuHSXRA1L3A1J4AYCSXDA1LFAc2S441SR41S241S142S141SA41S441S141S146S144S141S141S141S341",
  "S241S142S141S141S141S141S141S241S142S441S741S441S441S141SA41SH45S341S541SH4XKS2IeESXCL4SZ4LC",
  "SFL2SFL1SFL1SX5LASDAb1LXOSTLDSXCL4S9L7S2LES6LaQSdRL5KsOL4SHL3SDL3SZNL4SYVL6SCL4S1LFSCL4SXOL8",
  "SAL6SX8L8SUL2SCL4S2LXUSgKLCSEL2SDL3SAL5SXOL7SFL2SBL6S9L7SaJL1SYSLA8XW6SXft04X0SaXQ46ScU42Sbq",
  "24ESdfH4FSpE4Yj2SmU4Xl2SawB45SaZ04rtYHS1QUSZ0Qa0SdG5X-mGSX--UR2SX--UR2S"]

end AttrGrammar.Text.Unicode
